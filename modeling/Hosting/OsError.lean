/-! # Errors of the operating system

    A call to the operating system fails with a numbered error, and its text names the
    number. A path with a zero character never gets that far.
-/

namespace Hosting

/-- Why a call to the operating system failed. -/
inductive OsError where
  /-- A numbered error. -/
  | code (number : Int)
  /-- The path holds a zero character. -/
  | zeroInPath
deriving DecidableEq, Repr

namespace OsError

/-- The named path does not exist. -/
@[match_pattern] abbrev notFound : OsError := .code 2
/-- Something is there already. -/
abbrev alreadyExists : OsError := .code 17
/-- A path goes on below something that is no directory. -/
abbrev notDirectory : OsError := .code 20
/-- A directory stands where a file is wanted. -/
abbrev isDirectory : OsError := .code 21
/-- A name of more than 255 bytes, or a path of more than 4095. -/
abbrev nameTooLong : OsError := .code 36
/-- More than forty symbolic links on the way. -/
abbrev tooManyLinks : OsError := .code 40
/-- A name that is no text, where names have to be. -/
abbrev illegalSequence : OsError := .code 84

/-- The texts of the numbered errors, from zero on. -/
def texts : List String :=
  ["Success",
   "Operation not permitted",
   "No such file or directory",
   "No such process",
   "Interrupted system call",
   "Input/output error",
   "No such device or address",
   "Argument list too long",
   "Exec format error",
   "Bad file descriptor",
   "No child processes",
   "Resource temporarily unavailable",
   "Cannot allocate memory",
   "Permission denied",
   "Bad address",
   "Block device required",
   "Device or resource busy",
   "File exists",
   "Invalid cross-device link",
   "No such device",
   "Not a directory",
   "Is a directory",
   "Invalid argument",
   "Too many open files in system",
   "Too many open files",
   "Inappropriate ioctl for device",
   "Text file busy",
   "File too large",
   "No space left on device",
   "Illegal seek",
   "Read-only file system",
   "Too many links",
   "Broken pipe",
   "Numerical argument out of domain",
   "Numerical result out of range",
   "Resource deadlock avoided",
   "File name too long",
   "No locks available",
   "Function not implemented",
   "Directory not empty",
   "Too many levels of symbolic links",
   "Unknown error 41",
   "No message of desired type",
   "Identifier removed",
   "Channel number out of range",
   "Level 2 not synchronized",
   "Level 3 halted",
   "Level 3 reset",
   "Link number out of range",
   "Protocol driver not attached",
   "No CSI structure available",
   "Level 2 halted",
   "Invalid exchange",
   "Invalid request descriptor",
   "Exchange full",
   "No anode",
   "Invalid request code",
   "Invalid slot",
   "Unknown error 58",
   "Bad font file format",
   "Device not a stream",
   "No data available",
   "Timer expired",
   "Out of streams resources",
   "Machine is not on the network",
   "Package not installed",
   "Object is remote",
   "Link has been severed",
   "Advertise error",
   "Srmount error",
   "Communication error on send",
   "Protocol error",
   "Multihop attempted",
   "RFS specific error",
   "Bad message",
   "Value too large for defined data type",
   "Name not unique on network",
   "File descriptor in bad state",
   "Remote address changed",
   "Can not access a needed shared library",
   "Accessing a corrupted shared library",
   ".lib section in a.out corrupted",
   "Attempting to link in too many shared libraries",
   "Cannot exec a shared library directly",
   "Invalid or incomplete multibyte or wide character",
   "Interrupted system call should be restarted",
   "Streams pipe error",
   "Too many users",
   "Socket operation on non-socket",
   "Destination address required",
   "Message too long",
   "Protocol wrong type for socket",
   "Protocol not available",
   "Protocol not supported",
   "Socket type not supported",
   "Operation not supported",
   "Protocol family not supported",
   "Address family not supported by protocol",
   "Address already in use",
   "Cannot assign requested address",
   "Network is down",
   "Network is unreachable",
   "Network dropped connection on reset",
   "Software caused connection abort",
   "Connection reset by peer",
   "No buffer space available",
   "Transport endpoint is already connected",
   "Transport endpoint is not connected",
   "Cannot send after transport endpoint shutdown",
   "Too many references: cannot splice",
   "Connection timed out",
   "Connection refused",
   "Host is down",
   "No route to host",
   "Operation already in progress",
   "Operation now in progress",
   "Stale file handle",
   "Structure needs cleaning",
   "Not a XENIX named type file",
   "No XENIX semaphores available",
   "Is a named type file",
   "Remote I/O error",
   "Disk quota exceeded",
   "No medium found",
   "Wrong medium type",
   "Operation canceled",
   "Required key not available",
   "Key has expired",
   "Key has been revoked",
   "Key was rejected by service",
   "Owner died",
   "State not recoverable",
   "Operation not possible due to RF-kill",
   "Memory page has hardware error"]

/-- The text of a numbered error, if the number is in use. -/
def text? : Int → Option String
  | .ofNat n => texts[n]?
  | .negSucc _ => none

/-- The text of an error, with its number. -/
def message : OsError → String
  | .code n =>
    let text := (text? n).getD ("Unknown error " ++ toString n)
    text ++ " (os error " ++ toString n ++ ")"
  | .zeroInPath => "file name contained an unexpected NUL byte"

end OsError

end Hosting
