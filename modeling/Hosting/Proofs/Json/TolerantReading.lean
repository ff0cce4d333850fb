import Hosting.Proofs.Json.Omissions
import Hosting.Proofs.Json.RoundTrips

/-! # Texts by other hands

    Descriptors and settings are also written by hand, and by hosts that know other members.
    Such a text may leave out what is as it is by default, may have members that this host
    does not know, and may have them all in any order and in any spelling. It is read as the
    record that it describes. Only the context path and the resource base of a descriptor have
    to be given.

    - `Descriptor.not_ofText_of_lacks`: what has to be given.
    - `read_tolerantly`: texts that describe a record, and texts that lack what has to be given.
-/

namespace Hosting

open Json

/-! ### What a text has to say, and what it may -/

/-- A descriptor that lacks a field that has to be given is refused. -/
theorem Descriptor.not_ofText_of_lacks {w : Wording} (before after : Gap)
    {f : Json.Field Descriptor} (hf : f ∈ fields) (hreq : f.required = true)
    (hlacks : ¬ w.Gives (fields.map (·.name)) f.name) :
    ∃ fault, ofText (w.document before after) = .error fault := by
  rw [← toOption_eq_none_iff]
  exact (readAll_document regular_reader w before after).trans
    (record_lacks regular_fields _ hf hreq hlacks)

/-- Whatever else an object has for members and however it is written, it is read as the
    descriptor or as the settings that it describes, if these have a text at all. A text without a
    context path or a resource base is no descriptor. -/
theorem read_tolerantly :
    (∀ (d : Descriptor) (ms : List (Member Wording)) (inside before after : Gap),
        Describes ms d.json (Descriptor.ofBase "" "").json →
        some "context_path" ∈ ms.map Member.name? → some "resource_base" ∈ ms.map Member.name? →
        Descriptor.ofText ((Wording.object ms inside).document before after) = .ok d) ∧
      (∀ (w : Wording) (before after : Gap),
        ¬ (w.Gives (Descriptor.fields.map (·.name)) "context_path" ∧
          w.Gives (Descriptor.fields.map (·.name)) "resource_base") →
        ∃ fault, Descriptor.ofText (w.document before after) = .error fault) ∧
      ∀ (s : Settings) (ms : List (Member Wording)) (inside before after : Gap),
        s.isText = true → Describes ms s.json Settings.default.json →
        Settings.ofText ((Wording.object ms inside).document before after) = .ok s := by
  refine ⟨?_, ?_, ?_⟩
  · intro d ms inside before after hms hpath hbase
    rw [← toOption_eq_some_iff]
    refine (readAll_document Descriptor.regular_reader _ before after).trans ?_
    refine Descriptor.isFormat.meaning_described trivial trivial hms ?_ inside
    simp only [Descriptor.fields, List.forall_mem_cons]
    simp [field, requiredField, hpath, hbase]
  · intro w before after hlacks
    rcases not_and_or.1 hlacks with hpath | hbase
    · exact Descriptor.not_ofText_of_lacks before after (.head _) rfl hpath
    · exact Descriptor.not_ofText_of_lacks before after (.tail _ (.tail _ (.head _))) rfl hbase
  · intro s ms inside before after hs hms
    rw [← toOption_eq_some_iff]
    refine (readAll_document Settings.regular_reader _ before after).trans ?_
    refine Settings.isFormat.meaning_described hs rfl hms ?_ inside
    simp [Settings.fields, field]

namespace Json

/-- The characters as pieces that stand for themselves. -/
def Piece.plains (s : String) : List Piece :=
  s.toList.filterMap fun c =>
    if h : c ≠ '"' ∧ c ≠ '\\' ∧ 0x20 ≤ c.toNat then some (.plain c h) else none

/-- A member with a blank before its key and its value. -/
def Member.spaced (key : List Piece) (value : Wording) : Member Wording :=
  ⟨.single, key, .none, .single, value, .none⟩

/-- Half a surrogate pair, below an object in an array. An unknown member may hold it. -/
def Wording.halfPair : Wording :=
  .array
    [⟨.none,
      .object [.spaced (Piece.plains "x")
        (.quoted [.unit ⟨⟨'d', rfl⟩, ⟨'8', rfl⟩, ⟨'0', rfl⟩, ⟨'0', rfl⟩⟩])] .none, .none⟩]
    .none

/-- The members of a descriptor in another order, with an escape in a key and in a value. -/
def Member.ofShop : List (Member Wording) :=
  [.spaced (Piece.plains "note") .halfPair,
   .spaced (Piece.plains "resource_" ++
     .unit ⟨⟨'0', rfl⟩, ⟨'0', rfl⟩, ⟨'6', rfl⟩, ⟨'2', rfl⟩⟩ :: Piece.plains "ase")
     (.quoted (.short '/' '/' (by decide) :: Piece.plains "srv")),
   .spaced (Piece.plains "parent_loader_priority") (.bool true),
   .spaced (Piece.plains "context_path") (.quoted (Piece.plains "/shop"))]

theorem describes_ofShop : Describes Member.ofShop
    { Descriptor.ofBase "/shop" "/srv" with parentFirst := true : Descriptor }.json
      (Descriptor.ofBase "" "").json where
  key := by decide
  value := by
    show ∀ p ∈ [_, _, _, _, _, _, _, _, _, _], ∀ m ∈ [_, _, _, _], _
    simp only [List.forall_mem_cons, List.not_mem_nil, false_implies, implies_true, and_true]
    and_intros
    all_goals first | exact fun _ => rfl | exact fun h => absurd h (by decide)
  once := by decide
  omitted := by
    show ∀ p ∈ [_, _, _, _, _, _, _, _, _, _], _
    simp only [List.forall_mem_cons, List.not_mem_nil, false_implies, implies_true, and_true]
    and_intros
    all_goals first
      | exact fun h => absurd (by decide) h
      | exact fun _ => by simp [membersOf, Descriptor.json, Descriptor.ofBase]

/-- Settings that log more. -/
def Member.ofLogging : List (Member Wording) :=
  [.spaced (Piece.plains "debug_logging") (.bool true), .spaced (Piece.plains "note") .halfPair]

theorem describes_ofLogging : Describes Member.ofLogging
    { Settings.default with debugLogging := true : Settings }.json Settings.default.json where
  key := by decide
  value := by
    show ∀ p ∈ [_, _, _, _, _, _, _, _, _, _, _, _, _], ∀ m ∈ [_, _], _
    simp only [List.forall_mem_cons, List.not_mem_nil, false_implies, implies_true, and_true]
    and_intros
    all_goals first | exact fun _ => rfl | exact fun h => absurd h (by decide)
  once := by decide
  omitted := by
    show ∀ p ∈ [_, _, _, _, _, _, _, _, _, _, _, _, _], _
    simp only [List.forall_mem_cons, List.not_mem_nil, false_implies, implies_true, and_true]
    and_intros
    all_goals first
      | exact fun h => absurd (by decide) h
      | exact fun _ => by simp [membersOf, Settings.json]

end Json

theorem read_tolerantly_shop :
    Descriptor.ofText ("\x7b \"note\": [\x7b \"x\": \"\\ud800\"\x7d], " ++
        "\"resource_\\u0062ase\": \"\\/srv\", \"parent_loader_priority\": true, " ++
        "\"context_path\": \"/shop\"\x7d\n") =
        .ok { Descriptor.ofBase "/shop" "/srv" with parentFirst := true } ∧
      (∃ fault, Descriptor.ofText "[\"/shop\",\"\"]" = .error fault) ∧
      Settings.ofText "\x7b \"debug_logging\": true, \"note\": [\x7b \"x\": \"\\ud800\"\x7d]\x7d" =
        .ok { Settings.default with debugLogging := true } :=
  ⟨read_tolerantly.1 _ Member.ofShop .none .none ⟨['\n'], by decide⟩ describes_ofShop (by decide)
      (by decide),
    read_tolerantly.2.1 (.array [⟨.none, .quoted (Piece.plains "/shop"), .none⟩,
      ⟨.none, .quoted [], .none⟩] .none) .none .none (by decide),
    read_tolerantly.2.2 _ Member.ofLogging .none .none .none (by decide) describes_ofLogging⟩

end Hosting
