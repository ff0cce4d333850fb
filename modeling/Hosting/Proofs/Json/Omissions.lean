import Hosting.Proofs.Json.Members
import Hosting.Proofs.Json.Values
import Mathlib.Data.List.Nodup

/-! # Records with members left out

    A text describes a record if its members give the fields of the record, each at most once
    and in any order, with other members among them, and leave out no field but those that
    are as in the record where reading starts. Such a text is read as the record. The host itself
    writes all fields in their order, so its own texts are among these.

    - `Written`: a member as it is written, with the change that it makes.
    - `Describes`: what the members of a text have to give.
    - `IsFormat`: what is known of a kind of record. Changes of two fields commute, so the
      order of the members is of no consequence.
    - `takeMembers_fixes`: what the members leave behind needs no further change.
    - `IsFormat.meaning_described`, `IsFormat.takes`: the text is read as the record.
-/

namespace Hosting.Json

/-- The members of an object. -/
def membersOf : Json → List (String × Json)
  | .object members => members
  | _ => []

/-- The names of the members that are known, in the order of the text. -/
def knownNames (known : List String) (ms : List (Member Wording)) : List String :=
  (ms.filterMap Member.name?).filter fun name => decide (name ∈ known)

/-- The members of a text describe `v`, where a field that is left out is as in `start`. -/
structure Describes (ms : List (Member Wording)) (v start : Json) : Prop where
  /-- Every key is a string. An unknown one may be any. -/
  key : ∀ m ∈ ms, m.name?.isSome = true
  value : ∀ p ∈ membersOf v, ∀ m ∈ ms, m.name? = some p.1 → m.value.value? = some p.2
  once : (knownNames ((membersOf v).map (·.1)) ms).Nodup
  omitted : ∀ p ∈ membersOf v, some p.1 ∉ ms.map Member.name? → p ∈ membersOf start

/-! ### Records as they are written -/

/-- A member as it is written, and the change that it makes to the record. -/
structure Written (α : Type) where
  key : String
  value : Json
  update : α → α

namespace Written

variable {α β : Type} {fields : List (Field α)}

/-- A member that puts a value in its place. -/
def put (key : String) (value : Json) (set : α → β → α) (v : β) : Written α :=
  ⟨key, value, fun r => set r v⟩

/-- The members without what they mean. -/
def members (ms : List (Written α)) : List (String × Json) :=
  ms.map fun m => (m.key, m.value)

/-- The record after the members. -/
def updateAll (ms : List (Written α)) (start : α) : α :=
  ms.foldl (fun v m => m.update v) start

/-- The member is one of the fields, and its value is taken as the change. -/
def IsTaken (fields : List (Field α)) (w : Written α) : Prop :=
  ∃ f, fields.find? (·.name == w.key) = some f ∧ Takes f.read w.value w.update

theorem isTaken_put {f : Field α} {key : String} {value : Json} {set : α → β → α} {v : β}
    {item : Reader β} (hfind : fields.find? (·.name == key) = some f)
    (hread : f.read = readMap (fun v r => set r v) item) (h : Takes item value v) :
    (put key value set v).IsTaken fields := by
  refine ⟨f, hfind, ?_⟩
  rw [hread]
  exact h.map fun v r => set r v

theorem updateAll_of_fixes {ws : List (Written α)} {r : α} (h : ∀ w ∈ ws, w.update r = r) :
    updateAll ws r = r := by
  induction ws with
  | nil => rfl
  | cons w ws ih =>
    show updateAll ws (w.update r) = r
    rw [h w (by simp)]
    exact ih fun w' hw' => h w' (by simp [hw'])

end Written

/-! ### Changes one after the other -/

variable {α : Type} {fields : List (Field α)} {written : α → List (Written α)}
  {writable : α → Prop} {start v : α}

/-- Each change sticks, and two of them can be made in either order. -/
structure Settles (ws : List (Written α)) : Prop where
  again : ∀ w ∈ ws, ∀ r, w.update (w.update r) = w.update r
  commute : ∀ w ∈ ws, ∀ w' ∈ ws, ∀ r, w.update (w'.update r) = w'.update (w.update r)

theorem Settles.still_fixes {ws : List (Written α)} (hs : Settles ws) {w w' : Written α}
    (hw : w ∈ ws) (hw' : w' ∈ ws) {r : α} (h : w.update r = r) :
    w.update (w'.update r) = w'.update r := by
  rw [hs.commute w hw w' hw', h]

/-- What the table and the members of one record have to do with each other. -/
structure Covers (fields : List (Field α)) (ws : List (Written α)) : Prop where
  settles : Settles ws
  names : (fields.map (·.name)).Nodup
  keys : ws.map (·.key) = fields.map (·.name)
  taken : ∀ w ∈ ws, w.IsTaken fields

theorem Covers.eq_of_key {ws : List (Written α)} (hc : Covers fields ws) {w w' : Written α}
    (hw : w ∈ ws) (hw' : w' ∈ ws) (hkey : w.key = w'.key) : w = w' :=
  List.inj_on_of_nodup_map (hc.keys ▸ hc.names) hw hw' hkey

theorem takeMember_unknown {m : Member Wording} {name : String} (hname : m.name? = some name)
    (hunknown : name ∉ fields.map (·.name)) (state : Draft α) :
    takeMember fields state m = some state := by
  have hfind : fields.find? (·.name == name) = none := by
    rw [List.find?_eq_none]
    intro f hf hfname
    exact hunknown ((beq_iff_eq.1 hfname) ▸ List.mem_map_of_mem hf)
  unfold takeMember
  rw [hname, Option.bind_some, hfind]

theorem takeMember_known {w : Written α} (hw : w.IsTaken fields) {m : Member Wording}
    (hname : m.name? = some w.key) (hvalue : m.value.value? = some w.value) {state : Draft α}
    (hnew : w.key ∉ state.2) :
    takeMember fields state m = some (w.update state.1, w.key :: state.2) := by
  obtain ⟨f, hfind, htakes⟩ := hw
  unfold takeMember
  rw [hname, Option.bind_some, hfind]
  simp only
  rw [if_neg (by simpa using hnew), htakes m.value hvalue]
  rfl

/-- A member with a new name, and the value of the record where the name is known. -/
theorem takeMember_fixes {ws : List (Written α)} (hc : Covers fields ws)
    {m : Member Wording} {name : String} (hname : m.name? = some name)
    (hvalue : ∀ w ∈ ws, w.key = name → m.value.value? = some w.value) (state : Draft α)
    (hnew : name ∈ fields.map (·.name) → name ∉ state.2) :
    ∃ next, takeMember fields state m = some next ∧
      (∀ w ∈ ws, w.update state.1 = state.1 ∨ w.key = name → w.update next.1 = next.1) ∧
      (∀ key, key ∈ next.2 ↔ key ∈ state.2 ∨ key = name ∧ key ∈ fields.map (·.name)) := by
  by_cases hknown : name ∈ fields.map (·.name)
  · obtain ⟨w, hw, rfl⟩ := List.mem_map.1 (hc.keys ▸ hknown)
    refine ⟨_, takeMember_known (hc.taken w hw) hname (hvalue w hw rfl) (hnew hknown), ?_, ?_⟩
    · -- what was fixed stays so, as changes commute, and this change sticks
      rintro w' hw' (hfixed | hkey)
      · exact hc.settles.still_fixes hw' hw hfixed
      · obtain rfl := hc.eq_of_key hw' hw hkey
        exact hc.settles.again w' hw' state.1
    · intro key
      rw [List.mem_cons, or_comm]
      exact or_congr_right ⟨fun h => ⟨h, h ▸ hknown⟩, And.left⟩
  · refine ⟨state, takeMember_unknown hname hknown state, ?_, ?_⟩
    · rintro w hw (hfixed | hkey)
      · exact hfixed
      · exact absurd (hc.keys ▸ hkey ▸ List.mem_map_of_mem hw) hknown
    · intro key
      refine ⟨.inl, ?_⟩
      rintro (hold | ⟨rfl, hmem⟩)
      · exact hold
      · exact absurd hmem hknown

/-- The record that the members leave behind has what they give, and is otherwise as before. -/
theorem takeMembers_fixes {ws : List (Written α)} (hc : Covers fields ws)
    {ms : List (Member Wording)}
    (hkey : ∀ m ∈ ms, m.name?.isSome = true)
    (hvalue : ∀ m ∈ ms, ∀ w ∈ ws, m.name? = some w.key → m.value.value? = some w.value)
    (honce : (knownNames (fields.map (·.name)) ms).Nodup) (state : Draft α)
    (hnew : ∀ name ∈ knownNames (fields.map (·.name)) ms, name ∉ state.2) :
    ∃ next, ms.foldlM (takeMember fields) state = some next ∧
      (∀ w ∈ ws, w.update state.1 = state.1 ∨ some w.key ∈ ms.map Member.name? →
        w.update next.1 = next.1) ∧
      (∀ key ∈ fields.map (·.name), key ∈ state.2 ∨ some key ∈ ms.map Member.name? →
        key ∈ next.2) := by
  -- a change that nothing is left of to do stays so, whatever member is read next
  induction ms generalizing state with
  | nil => exact ⟨state, rfl, by simp, by simp⟩
  | cons m ms ih =>
    obtain ⟨name, hname⟩ := Option.isSome_iff_exists.1 (hkey m (by simp))
    have hknown (hmem : name ∈ fields.map (·.name)) :
        knownNames (fields.map (·.name)) (m :: ms) =
          name :: knownNames (fields.map (·.name)) ms := by
      simp only [knownNames, List.filterMap_cons, hname]
      rw [List.filter_cons_of_pos (by simpa using hmem)]
    have htail : (knownNames (fields.map (·.name)) ms).Sublist
        (knownNames (fields.map (·.name)) (m :: ms)) :=
      ((List.sublist_cons_self m ms).filterMap _).filter _
    obtain ⟨middle, hmiddle, hfixes, hnoted⟩ := takeMember_fixes hc hname
      (fun w hw hwkey => hvalue m (by simp) w hw (hwkey ▸ hname)) state
      fun hmem => hnew name (by simp [hknown hmem])
    have hnext (other : String) (hother : other ∈ knownNames (fields.map (·.name)) ms) :
        other ∉ middle.2 := by
      rw [hnoted]
      rintro (hold | ⟨rfl, hmem⟩)
      · exact hnew other (htail.subset hother) hold
      · exact (List.nodup_cons.1 (hknown hmem ▸ honce)).1 hother
    obtain ⟨next, hread, hfixed, hgiven⟩ := ih (fun m' hm' => hkey m' (by simp [hm']))
      (fun m' hm' => hvalue m' (by simp [hm'])) (honce.sublist htail) middle hnext
    refine ⟨next, ?_, fun w hw h => hfixed w hw ?_, fun key hfield h => hgiven key hfield ?_⟩
    · rw [List.foldlM_cons, hmiddle]
      exact hread
    · rw [List.map_cons, List.mem_cons, hname, Option.some.injEq] at h
      rcases h with hold | hhere | hlater
      · exact .inl (hfixes w hw (.inl hold))
      · exact .inl (hfixes w hw (.inr hhere))
      · exact .inr hlater
    · rw [List.map_cons, List.mem_cons, hname, Option.some.injEq] at h
      rcases h with hold | hhere | hlater
      · exact .inl ((hnoted key).2 (.inl hold))
      · exact .inl ((hnoted key).2 (.inr ⟨hhere, hfield⟩))
      · exact .inr hlater

/-! ### Formats -/

/-- A kind of record: how its members are written, and what the table makes of them. Not all
    records can be written. -/
structure IsFormat (fields : List (Field α)) (written : α → List (Written α))
    (writable : α → Prop) : Prop where
  names : (fields.map (·.name)).Nodup
  keys : ∀ r, (written r).map (·.key) = fields.map (·.name)
  settles : ∀ r, Settles (written r)
  /-- The members say everything about the record. -/
  whole : ∀ r s, Written.updateAll (written r) s = r
  /-- They say nothing new about it. -/
  fixes : ∀ r, ∀ w ∈ written r, w.update r = r
  regular : ∀ f ∈ fields, Regular f.read
  taken : ∀ r, writable r → ∀ w ∈ written r, w.IsTaken fields

theorem IsFormat.covers (h : IsFormat fields written writable) {r : α} (hr : writable r) :
    Covers fields (written r) :=
  ⟨h.settles r, h.names, h.keys r, h.taken r hr⟩

/-- A member that has the same value in two records makes the same change in both. -/
theorem Written.update_eq {w w' : Written α} (hw : w.IsTaken fields) (hw' : w'.IsTaken fields)
    (hkey : w.key = w'.key) (hvalue : w.value = w'.value) : w.update = w'.update := by
  -- the two changes are what one field makes of one value
  obtain ⟨f, hfind, htakes⟩ := hw
  obtain ⟨f', hfind', htakes'⟩ := hw'
  rw [hkey, hfind'] at hfind
  obtain rfl := Option.some.inj hfind
  rw [hvalue] at htakes
  exact htakes.unique htakes'

theorem finish_of_required {state : Draft α}
    (h : ∀ f ∈ fields, f.required = true → f.name ∈ state.2) :
    finish fields state = .ok state.1 := by
  unfold finish
  rw [if_pos]
  refine List.all_eq_true.2 fun f hf => ?_
  cases hreq : f.required with
  | false => rfl
  | true => simp [h f hf hreq]

namespace IsFormat

theorem names_written (h : IsFormat fields written writable) (r : α) :
    (Written.members (written r)).map (·.1) = fields.map (·.name) := by
  rw [← h.keys r]
  simp [Written.members]

/-- A text that describes a record is read as that record, if what has to be given is. -/
theorem meaning_described (h : IsFormat fields written writable) (hv : writable v)
    (hstart : writable start) {ms : List (Member Wording)}
    (hms : Describes ms (.object (Written.members (written v)))
      (.object (Written.members (written start))))
    (hrequired : ∀ f ∈ fields, f.required = true → some f.name ∈ ms.map Member.name?)
    (inside : Gap) : meaning (record fields start) (.object ms inside) = some v := by
  have hcovers := h.covers hv
  have hmember {r : α} {w : Written α} (hw : w ∈ written r) :
      (w.key, w.value) ∈ membersOf (.object (Written.members (written r))) :=
    List.mem_map.2 ⟨w, hw, rfl⟩
  obtain ⟨next, hread, hfixed, hgiven⟩ := takeMembers_fixes hcovers hms.key
    (fun m hm w hw hname => hms.value _ (hmember hw) m hm hname)
    (h.names_written v ▸ hms.once) (start, []) (by simp)
  have hdone : next.1 = v := by
    have hall (w : Written α) (hw : w ∈ written v) : w.update next.1 = next.1 := by
      refine hfixed w hw ?_
      by_cases hpresent : some w.key ∈ ms.map Member.name?
      · exact .inr hpresent
      · obtain ⟨w', hw', heq⟩ := List.mem_map.1 (hms.omitted _ (hmember hw) hpresent)
        obtain ⟨hkey, hvalue⟩ := Prod.mk.inj heq
        -- the change is the one that the start would make to itself, which is none
        left
        rw [Written.update_eq (h.taken v hv w hw) (h.taken start hstart w' hw') hkey.symm
          hvalue.symm]
        exact h.fixes start w' hw'
    rw [← Written.updateAll_of_fixes hall, h.whole]
  have hfinish : finish fields next = .ok v := by
    rw [← hdone]
    exact finish_of_required fun f hf hreq =>
      hgiven f.name (List.mem_map_of_mem hf) (.inr (hrequired f hf hreq))
  rw [(means_record h.regular start).meaning_eq, recordOf, hread, Option.bind_some, hfinish]
  rfl

/-- A text with all members of a record, in their order, describes it. -/
theorem describes_pairs (h : IsFormat fields written writable) {ms : List (Member Wording)}
    (hms : Wording.pairs? ms = some (Written.members (written v))) (start : Json) :
    Describes ms (.object (Written.members (written v))) start := by
  have hnames := Wording.names_of_pairs? hms
  have hnodup : ((Written.members (written v)).map (·.1)).Nodup := h.names_written v ▸ h.names
  refine ⟨?_, ?_, ?_, ?_⟩
  · intro m hm
    obtain ⟨p, -, hname, -⟩ := Wording.mem_of_pairs? hms hm
    rw [hname]
    rfl
  · intro p hp m hm hname
    -- names are told apart, so the pair that the member stands for is this one
    obtain ⟨p', hp', hname', hvalue⟩ := Wording.mem_of_pairs? hms hm
    have hkey : p'.1 = p.1 := Option.some.inj (hname'.symm.trans hname)
    obtain rfl := List.inj_on_of_nodup_map hnodup hp' hp hkey
    exact hvalue
  · have hall : ms.filterMap Member.name? = (Written.members (written v)).map (·.1) := by
      have hid : ms.filterMap Member.name? = (ms.map Member.name?).filterMap id := by
        rw [List.filterMap_map]
        rfl
      rw [hid, hnames, List.filterMap_map]
      exact List.filterMap_some
    unfold knownNames
    rw [hall]
    exact hnodup.filter _
  · intro p hp habsent
    rw [hnames] at habsent
    exact absurd (List.mem_map_of_mem (List.mem_map_of_mem hp)) habsent

/-- The reader of a record takes its written form. -/
theorem takes (h : IsFormat fields written writable) (hv : writable v) (hstart : writable start) :
    Takes (record fields start) (.object (Written.members (written v))) v := by
  intro w hw
  cases w with
  | object ms inside =>
    obtain ⟨pairs, hpairs, heq⟩ := Option.map_eq_some_iff.1 hw
    cases heq
    refine h.meaning_described hv hstart (h.describes_pairs hpairs _) ?_ inside
    intro f hf _
    rw [Wording.names_of_pairs? hpairs, h.names_written v]
    exact List.mem_map_of_mem (List.mem_map_of_mem hf)
  | _ => simp [Wording.value?] at hw

end IsFormat

end Hosting.Json
