import Hosting.Descriptor
import Hosting.Proofs.Json.Omissions

/-! # Descriptors read back

    A descriptor is written as a record: its members in the order of its fields. Reading puts
    each of them back in its place, so it comes back from its stored text as it was, whatever its
    texts hold.

    - `Descriptor.isFormat`: the members of a descriptor, and what the table makes of them.
    - `Descriptor.readAll_json`: the two texts in use, read back.
-/

namespace Hosting

open Json

namespace Json

theorem regular_text : Regular readText :=
  means_text.regular

theorem regular_texts : Regular (readList readText) :=
  (means_list regular_text).regular

theorem takes_texts (xs : List String) : Takes (readList readText) (texts xs) xs :=
  takes_list regular_text fun x _ => takes_text x

theorem takes_optionalTexts (xs? : Option (List String)) :
    Takes (readOption (readList readText)) (optional texts xs?) xs? :=
  takes_optional regular_texts takes_texts (fun _ => by simp [texts]) xs?

end Json

namespace Descriptor

/-- The members of a descriptor as they are written, each with what it says. -/
def written (d : Descriptor) : List (Written Descriptor) :=
  [.put "context_path" (.text d.contextPath) (fun d v => { d with contextPath := v })
    d.contextPath,
   .put "display_name" (.text d.displayName) (fun d v => { d with displayName := v })
    d.displayName,
   .put "resource_base" (.text d.resourceBase) (fun d v => { d with resourceBase := v })
    d.resourceBase,
   .put "extra_classpath" (optional Json.text d.extraClasspath)
    (fun d v => { d with extraClasspath := v }) d.extraClasspath,
   .put "aliases" (.array (d.aliases.map pairJson)) (fun d v => { d with aliases := v })
    d.aliases,
   .put "white_list" (optional texts d.whiteList) (fun d v => { d with whiteList := v })
    d.whiteList,
   .put "configuration_classes" (texts d.processors) (fun d v => { d with processors := v })
    d.processors,
   .put "parent_loader_priority" (.bool d.parentFirst) (fun d v => { d with parentFirst := v })
    d.parentFirst,
   .put "system_classes" (texts d.systemNames) (fun d v => { d with systemNames := v })
    d.systemNames,
   .put "server_classes" (texts d.serverNames) (fun d v => { d with serverNames := v })
    d.serverNames]

theorem regular_alias : Regular (readPair readText readText) :=
  (means_pair regular_text regular_text).regular

theorem takes_aliases (aliases : List (String × String)) :
    Takes (readList (readPair readText readText)) (.array (aliases.map pairJson)) aliases :=
  takes_list regular_alias fun pair _ =>
    takes_pair regular_text regular_text (takes_text pair.1) (takes_text pair.2)

theorem regular_fields : ∀ f ∈ fields, Regular f.read := by
  have hoption : Regular (readOption readText) := (means_option regular_text).regular
  have hoptions : Regular (readOption (readList readText)) := (means_option regular_texts).regular
  have haliases : Regular (readList (readPair readText readText)) :=
    (means_list regular_alias).regular
  simp only [fields, field, requiredField, List.forall_mem_cons, List.not_mem_nil, false_implies,
    implies_true, and_true]
  exact
    ⟨regular_text.map _, regular_text.map _, regular_text.map _, hoption.map _, haliases.map _,
      hoptions.map _, regular_texts.map _, means_bool.regular.map _, regular_texts.map _,
      regular_texts.map _⟩

theorem taken_written (d : Descriptor) : ∀ w ∈ d.written, w.IsTaken fields := by
  have hoption : Takes (readOption readText) (optional Json.text d.extraClasspath)
      d.extraClasspath :=
    takes_optional regular_text takes_text (fun _ => by simp) _
  simp only [written, List.forall_mem_cons, List.not_mem_nil, false_implies, implies_true,
    and_true]
  exact
    ⟨Written.isTaken_put rfl rfl (takes_text _),
     Written.isTaken_put rfl rfl (takes_text _),
     Written.isTaken_put rfl rfl (takes_text _),
     Written.isTaken_put rfl rfl hoption,
     Written.isTaken_put rfl rfl (takes_aliases _),
     Written.isTaken_put rfl rfl (takes_optionalTexts _),
     Written.isTaken_put rfl rfl (takes_texts _),
     Written.isTaken_put rfl rfl (takes_bool _),
     Written.isTaken_put rfl rfl (takes_texts _),
     Written.isTaken_put rfl rfl (takes_texts _)⟩

/-- Every descriptor can be written: its resource base is a string, and no path yet. -/
theorem isFormat : IsFormat fields written fun _ => True where
  names := by decide
  keys _ := rfl
  settles d := by
    constructor <;>
      simp only [written, Written.put, List.forall_mem_cons, List.not_mem_nil, false_implies,
        implies_true, and_true]
  whole d start := by
    simp only [Written.updateAll, written, Written.put, List.foldl_cons, List.foldl_nil]
  fixes d := by
    simp only [written, Written.put, List.forall_mem_cons, List.not_mem_nil, false_implies,
      implies_true, and_true]
  regular := regular_fields
  taken d _ := taken_written d

theorem regular_reader : Regular reader :=
  regular_record regular_fields _

/-- A written descriptor is read as it was. -/
theorem takes_json (d : Descriptor) : Takes reader d.json d :=
  isFormat.takes trivial trivial

theorem readAll_json (d : Descriptor) :
    readAll reader d.json.toText = .ok d ∧ readAll reader d.json.toPrettyText = .ok d :=
  readAll_of_takes regular_reader d.takes_json

theorem ofText_toText (d : Descriptor) : ofText d.toText = .ok d :=
  d.readAll_json.1

end Descriptor

end Hosting
