import Hosting.Proofs.Lookup.AliasTables
import Hosting.Proofs.Path.Reading
import Hosting.Proofs.Text.Offsets

/-! # Alias routes

    A path that is registered leads to the other side of its route. Any other path leads where
    its longest registered prefix leads, of those that end in a slash, with what is left of the
    path behind it.

    - `IsCounterpart`: the other side of a route, which either side can have.
    - `Yields`: what a search among the prefixes of a path comes to.
    - `searchFrom`: the search from the right, by byte offsets.
    - `yields_prefixRoute`, `yields_searchFrom`: both searches come to the same, and no cut fails.
    - `aliasFor_longest`: the route of a path in every table.
-/

namespace Hosting.Namespace

open Text VirtualPath

variable {table : List (String × String)} {path key side route : String}

/-! ### Counterparts -/

/-- The text is a side of one of the routes. -/
def Registered (table : List (String × String)) (key : String) : Prop :=
  ∃ pair ∈ table, pair.1 = key ∨ pair.2 = key

/-- The other side of a route at the text. A route that starts there comes before those that end
    there, and of these the newest comes first. -/
inductive IsCounterpart (table : List (String × String)) (key side : String) : Prop where
  /-- A route starts at the text. -/
  | ahead : (key, side) ∈ table → IsCounterpart table key side
  /-- No route starts at the text, and this is the newest that ends there. -/
  | back (older newer : List (String × String)) :
      (∀ pair ∈ table, pair.1 ≠ key) → table = older ++ (side, key) :: newer →
      (∀ pair ∈ newer, pair.2 ≠ key) → IsCounterpart table key side

/-- Looked for from the end, the last one of a list is found. -/
theorem find?_reverse_eq_some_iff {α : Type} {p : α → Bool} {l : List α} {x : α} :
    l.reverse.find? p = some x ↔
      p x = true ∧ ∃ older newer, l = older ++ x :: newer ∧ ∀ y ∈ newer, p y = false := by
  rw [List.find?_eq_some_iff_append]
  refine and_congr_right fun _ => ⟨?_, ?_⟩
  · rintro ⟨newer, older, hsplit, hnewer⟩
    refine ⟨older.reverse, newer.reverse, ?_, fun y hy => ?_⟩
    · rw [← List.reverse_reverse l, hsplit]
      simp
    · simpa using hnewer y (List.mem_reverse.1 hy)
  · rintro ⟨older, newer, rfl, hnewer⟩
    refine ⟨newer.reverse, older.reverse, by simp, fun y hy => ?_⟩
    simp [hnewer y (List.mem_reverse.1 hy)]

/-- In a table, one route starts at a text. -/
theorem AreKept.find?_reverse (h : AreKept table) :
    table.reverse.find? (·.1 == key) = some (key, side) ↔ (key, side) ∈ table := by
  rw [find?_reverse_eq_some_iff]
  constructor
  · rintro ⟨-, older, newer, rfl, -⟩
    exact List.mem_append_right _ List.mem_cons_self
  · intro hmem
    obtain ⟨older, newer, hsplit⟩ := List.append_of_mem hmem
    refine ⟨beq_self_eq_true key, older, newer, hsplit, fun pair hpair => ?_⟩
    have hdistinct := h.distinct
    rw [hsplit] at hdistinct
    have hne : key ≠ pair.1 :=
      (List.pairwise_cons.1 (List.pairwise_append.1 hdistinct).2.1).1 pair hpair
    rw [beq_eq_false_iff_ne]
    exact hne.symm

theorem counterpart_eq_none_iff : counterpart table key = none ↔ ¬ Registered table key := by
  unfold counterpart Registered
  cases hahead : table.reverse.find? (·.1 == key) with
  | some pair =>
    obtain ⟨hpair, older, newer, hsplit, -⟩ := find?_reverse_eq_some_iff.1 hahead
    have hregistered : ∃ pair ∈ table, pair.1 = key ∨ pair.2 = key := by
      refine ⟨pair, ?_, .inl (beq_iff_eq.1 hpair)⟩
      rw [hsplit]
      exact List.mem_append_right _ List.mem_cons_self
    exact iff_of_false (Option.some_ne_none _) (not_not_intro hregistered)
  | none =>
    rw [List.find?_eq_none] at hahead
    rw [Option.map_eq_none_iff, List.find?_eq_none]
    constructor
    · rintro hback ⟨pair, hpair, hkey | hkey⟩
      · exact hahead pair (List.mem_reverse.2 hpair) (beq_iff_eq.2 hkey)
      · exact hback pair (List.mem_reverse.2 hpair) (beq_iff_eq.2 hkey)
    · intro hnone pair hpair hkey
      exact hnone ⟨pair, List.mem_reverse.1 hpair, .inr (beq_iff_eq.1 hkey)⟩

theorem registered_of_counterpart (h : counterpart table key = some side) :
    Registered table key := by
  by_cases hregistered : Registered table key
  · exact hregistered
  · rw [counterpart_eq_none_iff.2 hregistered] at h
    cases h

/-- What a text leads to is a side of a route too. -/
theorem registered_counterpart (h : counterpart table key = some side) :
    Registered table side := by
  unfold counterpart at h
  split at h
  · next pair hfind =>
    obtain rfl := Option.some.inj h
    exact ⟨pair, List.mem_reverse.1 (List.mem_of_find?_eq_some hfind), .inr rfl⟩
  · obtain ⟨pair, hfind, rfl⟩ := Option.map_eq_some_iff.1 h
    exact ⟨pair, List.mem_reverse.1 (List.mem_of_find?_eq_some hfind), .inl rfl⟩

theorem counterpart_eq_some_iff (h : AreKept table) :
    counterpart table key = some side ↔ IsCounterpart table key side := by
  unfold counterpart
  cases hahead : table.reverse.find? (·.1 == key) with
  | some pair =>
    obtain ⟨source, target⟩ := pair
    obtain rfl : source = key := beq_iff_eq.1 (find?_reverse_eq_some_iff.1 hahead).1
    have hmem := h.find?_reverse.1 hahead
    constructor
    · intro hside
      obtain rfl := Option.some.inj hside
      exact .ahead hmem
    · intro hside
      cases hside with
      | ahead hother =>
        rw [h.find?_reverse.2 hother] at hahead
        rw [(Prod.mk.inj (Option.some.inj hahead)).2]
      | back _ _ hnone => exact absurd rfl (hnone _ hmem)
  | none =>
    have hnone : ∀ pair ∈ table, pair.1 ≠ key := by
      intro pair hpair hkey
      exact List.find?_eq_none.1 hahead pair (List.mem_reverse.2 hpair) (beq_iff_eq.2 hkey)
    rw [Option.map_eq_some_iff]
    constructor
    · rintro ⟨⟨source, target⟩, hfind, rfl⟩
      obtain ⟨hkey, older, newer, hsplit, hnewer⟩ := find?_reverse_eq_some_iff.1 hfind
      obtain rfl : target = key := beq_iff_eq.1 hkey
      refine .back older newer hnone hsplit fun pair hpair => ?_
      exact beq_eq_false_iff_ne.1 (hnewer pair hpair)
    · intro hside
      cases hside with
      | ahead hmem => exact absurd rfl (hnone _ hmem)
      | back older newer _ hsplit hnewer =>
        refine ⟨(side, key), find?_reverse_eq_some_iff.2 ?_, rfl⟩
        refine ⟨beq_self_eq_true key, older, newer, hsplit, fun pair hpair => ?_⟩
        exact beq_eq_false_iff_ne.2 (hnewer pair hpair)

/-! ### Texts that end in a slash -/

/-- The text with a slash behind it. -/
def slashed (stem : List Char) : String :=
  .ofList (stem ++ ['/'])

@[simp] theorem toList_slashed (stem : List Char) : (slashed stem).toList = stem ++ ['/'] :=
  String.toList_ofList

theorem getLast?_slashed (stem : List Char) : (slashed stem).toList.getLast? = some '/' := by
  rw [toList_slashed, List.getLast?_concat]

theorem length_slashed (stem : List Char) : (slashed stem).toList.length = stem.length + 1 := by
  rw [toList_slashed, List.length_append, List.length_singleton]

/-- A text that ends in a slash is another text with a slash behind it. -/
theorem exists_eq_slashed (h : key.toList.getLast? = some '/') : ∃ stem, key = slashed stem := by
  obtain ⟨stem, hstem⟩ := List.getLast?_eq_some_iff.1 h
  exact ⟨stem, by rw [slashed, ← hstem, String.ofList_toList]⟩

theorem slashed_append (stem rest : List Char) :
    (slashed stem).toList ++ rest = stem ++ '/' :: rest := by
  rw [toList_slashed, List.append_assoc, List.singleton_append]

/-! ### Searching among prefixes -/

/-- What a search comes to among the prefixes of `front` that end in a slash, if `back` follows
    behind `front`. What a prefix leads to is told by `leads`, without its slash. -/
inductive Yields (leads : List Char → Option String) (front back : List Char) :
    Option String → Prop where
  /-- No prefix leads anywhere. -/
  | nothing : (∀ stem rest, front = stem ++ '/' :: rest → leads stem = none) →
      Yields leads front back none
  /-- This prefix leads somewhere, and no longer one does. -/
  | longest (stem rest : List Char) (side : String) : front = stem ++ '/' :: rest →
      leads stem = some side →
      (∀ stem' rest', front = stem' ++ '/' :: rest' → stem.length < stem'.length →
        leads stem' = none) →
      Yields leads front back (some (routed side (rest ++ back)))

variable {leads : List Char → Option String} {front back : List Char} {result result' : Option String}

/-- A search comes to one thing. -/
theorem Yields.unique (h : Yields leads front back result) (h' : Yields leads front back result') :
    result = result' := by
  cases h with
  | nothing hnone =>
    cases h' with
    | nothing => rfl
    | longest stem rest side hsplit hside =>
      rw [hnone stem rest hsplit] at hside
      cases hside
  | longest stem rest side hsplit hside hlonger =>
    cases h' with
    | nothing hnone =>
      rw [hnone stem rest hsplit] at hside
      cases hside
    | longest stem' rest' side' hsplit' hside' hlonger' =>
      -- neither of the two prefixes is longer than the other
      have hle : stem'.length ≤ stem.length := by
        apply Nat.le_of_not_lt
        intro hlt
        rw [hlonger stem' rest' hsplit' hlt] at hside'
        cases hside'
      have hge : stem.length ≤ stem'.length := by
        apply Nat.le_of_not_lt
        intro hlt
        rw [hlonger' stem rest hsplit hlt] at hside
        cases hside
      obtain ⟨rfl, hrest⟩ :=
        List.append_inj (hsplit.symm.trans hsplit') (Nat.le_antisymm hge hle)
      obtain rfl := (List.cons.inj hrest).2
      obtain rfl := Option.some.inj (hside.symm.trans hside')
      rfl

/-- Read from the left, the prefixes that go on behind the first character come first, and the
    character itself comes last if it is a slash. -/
theorem Yields.cons {c : Char} (h : Yields (fun stem => leads (c :: stem)) front back result) :
    Yields leads (c :: front) back
      (result.or (if c = '/' then (leads []).map (routed · (front ++ back)) else none)) := by
  have hinner {stem rest : List Char} (hsplit : c :: front = stem ++ '/' :: rest) :
      (stem = [] ∧ c = '/') ∨ ∃ inner, stem = c :: inner ∧ front = inner ++ '/' :: rest := by
    cases stem with
    | nil => exact .inl ⟨rfl, (List.cons.inj hsplit).1⟩
    | cons d inner =>
      obtain ⟨rfl, hfront⟩ := List.cons.inj hsplit
      exact .inr ⟨inner, rfl, hfront⟩
  cases h with
  | longest stem rest side hsplit hside hlonger =>
    refine .longest (c :: stem) rest side (by rw [hsplit, List.cons_append]) hside ?_
    intro stem' rest' hsplit' hlt
    rcases hinner hsplit' with ⟨rfl, -⟩ | ⟨inner, rfl, hfront⟩
    · exact absurd hlt (Nat.not_lt_zero _)
    · exact hlonger inner rest' hfront (Nat.lt_of_succ_lt_succ hlt)
  | nothing hnone =>
    rw [Option.none_or]
    by_cases hc : c = '/'
    · subst hc
      rw [if_pos rfl]
      cases hside : leads [] with
      | none =>
        refine .nothing fun stem rest hsplit => ?_
        rcases hinner hsplit with ⟨rfl, -⟩ | ⟨inner, rfl, hfront⟩
        · exact hside
        · exact hnone inner rest hfront
      | some side =>
        refine .longest [] front side rfl hside fun stem' rest' hsplit' hlt => ?_
        rcases hinner hsplit' with ⟨rfl, -⟩ | ⟨inner, rfl, hfront⟩
        · exact absurd hlt (Nat.not_lt_zero _)
        · exact hnone inner rest' hfront
    · rw [if_neg hc]
      refine .nothing fun stem rest hsplit => ?_
      rcases hinner hsplit with ⟨-, hslash⟩ | ⟨inner, rfl, hfront⟩
      · exact absurd hslash hc
      · exact hnone inner rest hfront

theorem prefixRoute_cons (table : List (String × String)) (before : List Char) (c : Char)
    (cs : List Char) :
    prefixRoute table before (c :: cs) =
      (prefixRoute table (c :: before) cs).or
        (if c = '/' then
          (counterpart table (.ofList (c :: before).reverse)).map (routed · cs)
        else none) := by
  rw [prefixRoute]
  cases prefixRoute table (c :: before) cs <;> rfl

/-- What a prefix leads to that is `before`, given last character first, with `stem` and a slash
    behind it. -/
def leadsBehind (table : List (String × String)) (before stem : List Char) : Option String :=
  counterpart table (slashed (before.reverse ++ stem))

theorem leadsBehind_cons (table : List (String × String)) (c : Char) (before : List Char) :
    leadsBehind table (c :: before) = fun stem => leadsBehind table before (c :: stem) := by
  funext stem
  unfold leadsBehind
  rw [List.reverse_cons, List.append_assoc, List.singleton_append]

/-- The route of the longest prefix, in a path of which `before` was read already. -/
theorem yields_prefixRoute (table : List (String × String)) (before cs : List Char) :
    Yields (leadsBehind table before) cs [] (prefixRoute table before cs) := by
  -- a character that is read goes over from the prefixes to what was read before
  induction cs generalizing before with
  | nil =>
    refine .nothing fun stem rest hsplit => ?_
    exact absurd hsplit.symm (List.append_ne_nil_of_right_ne_nil _ (List.cons_ne_nil _ _))
  | cons c cs ih =>
    have hrest := ih (c :: before)
    rw [leadsBehind_cons] at hrest
    have hall := hrest.cons
    rw [List.append_nil] at hall
    rw [prefixRoute_cons]
    by_cases hc : c = '/'
    · subst hc
      have hkey : leadsBehind table before [] =
          counterpart table (.ofList ('/' :: before).reverse) := by
        rw [leadsBehind, List.append_nil, List.reverse_cons, slashed]
      rw [if_pos rfl, hkey] at hall
      rw [if_pos rfl]
      exact hall
    · rw [if_neg hc] at hall ⊢
      exact hall

/-! ### Searching from the right -/

/-- The search among the first `stop` bytes of a path, from its last slash to its first. Nothing
    comes of it if the path cannot be cut where the search cuts it. -/
def searchFrom (table : List (String × String)) (path : String) (stop : Nat) :
    Option (Option String) :=
  match _hfront : cut? path stop with
  | none => none
  | some (front, _) =>
    match _hslash : lastSlash? front.toList with
    | none => some none
    | some slash =>
      match cut? path (slash + 1) with
      | none => none
      | some (key, rest) =>
        match counterpart table key with
        | some side => some (some (routed side rest.toList))
        | none => if slash = 0 then some none else searchFrom table path slash
termination_by stop
decreasing_by
  obtain ⟨-, rfl⟩ := cut?_eq_some_iff.1 _hfront
  obtain ⟨before, after, hsplit, -, rfl⟩ := lastSlash?_eq_some_iff.1 _hslash
  rw [← byteSize_toList, hsplit, byteSize_append, byteSize_cons]
  have hpos := Char.utf8Size_pos '/'
  omega

/-- The route of a path, by byte offsets. -/
def aliasForAt (table : List (String × String)) (path : String) : Option (Option String) :=
  match counterpart table path with
  | some side => some (some side)
  | none => searchFrom table path path.utf8ByteSize

/-- The first cut does not fail at the end of the first characters of the path. -/
theorem searchFrom_front (table : List (String × String)) (front back : List Char) :
    searchFrom table (.ofList (front ++ back)) (byteSize front) =
      match lastSlash? front with
      | none => some none
      | some slash =>
        match cut? (.ofList (front ++ back)) (slash + 1) with
        | none => none
        | some (key, rest) =>
          match counterpart table key with
          | some side => some (some (routed side rest.toList))
          | none =>
            if slash = 0 then some none
            else searchFrom table (.ofList (front ++ back)) slash := by
  have hcut := cut?_append front back
  rw [searchFrom]
  split
  · next hnone =>
    rw [hcut] at hnone
    cases hnone
  · next found _ hfound =>
    rw [hcut] at hfound
    obtain ⟨rfl, -⟩ := Prod.mk.inj (Option.some.inj hfound)
    rw [String.toList_ofList]
    cases lastSlash? front <;> rfl

/-- Where no slash is left, the search ends. -/
theorem searchFrom_of_no_slash (table : List (String × String)) {front : List Char}
    (h : '/' ∉ front) (back : List Char) :
    searchFrom table (.ofList (front ++ back)) (byteSize front) = some none := by
  rw [searchFrom_front, lastSlash?_eq_none_iff.2 h]

/-- The search looks at the prefix up to the last slash, and goes on before that slash if the prefix
    leads nowhere and is not the slash alone. -/
theorem searchFrom_of_lastSlash (table : List (String × String)) (stem : List Char)
    {rest : List Char} (h : '/' ∉ rest) (back : List Char) :
    searchFrom table (.ofList (stem ++ '/' :: rest ++ back)) (byteSize (stem ++ '/' :: rest)) =
      match leadsBehind table [] stem with
      | some side => some (some (routed side (rest ++ back)))
      | none =>
        if stem = [] then some none
        else searchFrom table (.ofList (stem ++ ('/' :: rest ++ back))) (byteSize stem) := by
  have hslash : lastSlash? (stem ++ '/' :: rest) = some (byteSize stem) :=
    lastSlash?_eq_some_iff.2 ⟨stem, rest, rfl, h, rfl⟩
  -- the slash takes one byte, so the prefix with it ends at the next offset
  have hkey : cut? (.ofList (stem ++ '/' :: rest ++ back)) (byteSize stem + 1) =
      some (slashed stem, .ofList (rest ++ back)) := by
    have hcut' := cut?_append (stem ++ ['/']) (rest ++ back)
    rw [byteSize_append, List.append_assoc, List.singleton_append, ← List.cons_append,
      ← List.append_assoc] at hcut'
    exact hcut'
  rw [searchFrom_front, hslash]
  simp only [hkey, byteSize_eq_zero_iff, String.toList_ofList]
  rw [List.append_assoc stem]
  rfl

/-- A prefix that ends in a slash ends in the last one, or comes before it. -/
theorem prefix_cases_of_lastSlash {stem rest stem' rest' : List Char} (h : '/' ∉ rest)
    (hsplit : stem ++ '/' :: rest = stem' ++ '/' :: rest') :
    (stem' = stem ∧ rest' = rest) ∨
      ∃ mid, stem = stem' ++ '/' :: mid ∧ rest' = mid ++ '/' :: rest := by
  rcases List.append_eq_append_iff.1 hsplit with ⟨mid, rfl, hmid⟩ | ⟨mid, rfl, hmid⟩
  · cases mid with
    | nil =>
      rw [List.nil_append] at hmid
      exact .inl ⟨List.append_nil stem, (List.cons.inj hmid).2.symm⟩
    | cons c mid =>
      -- the rest would hold a slash
      rw [(List.cons.inj hmid).2] at h
      exact absurd (List.mem_append_right _ List.mem_cons_self) h
  · cases mid with
    | nil =>
      rw [List.nil_append] at hmid
      exact .inl ⟨(List.append_nil stem').symm, (List.cons.inj hmid).2⟩
    | cons c mid =>
      obtain ⟨rfl, hrest⟩ := List.cons.inj hmid
      exact .inr ⟨mid, rfl, hrest⟩

/-- No prefix is longer than the one up to the last slash. -/
theorem Yields.at_lastSlash {stem rest : List Char} (hrest : '/' ∉ rest)
    (hside : leads stem = some side) (back : List Char) :
    Yields leads (stem ++ '/' :: rest) back (some (routed side (rest ++ back))) := by
  refine .longest stem rest side rfl hside fun stem' rest' hsplit hlt => ?_
  rcases prefix_cases_of_lastSlash hrest hsplit with ⟨rfl, -⟩ | ⟨mid, rfl, -⟩
  · exact absurd hlt (Nat.lt_irrefl _)
  · rw [List.length_append] at hlt
    omega

/-- If that one leads nowhere, the others are the prefixes of what comes before the slash. -/
theorem Yields.before_lastSlash {stem rest : List Char} (hrest : '/' ∉ rest)
    (hnone : leads stem = none) (h : Yields leads stem ('/' :: rest ++ back) result) :
    Yields leads (stem ++ '/' :: rest) back result := by
  cases h with
  | nothing hall =>
    refine .nothing fun stem' rest' hsplit => ?_
    rcases prefix_cases_of_lastSlash hrest hsplit with ⟨rfl, -⟩ | ⟨mid, hstem, -⟩
    · exact hnone
    · exact hall stem' mid hstem
  | longest first mid side hstem hside hlonger =>
    rw [← List.append_assoc]
    refine .longest first (mid ++ '/' :: rest) side ?_ hside fun stem' rest' hsplit hlt => ?_
    · rw [hstem, List.append_assoc, List.cons_append]
    · rcases prefix_cases_of_lastSlash hrest hsplit with ⟨rfl, -⟩ | ⟨mid', hstem', -⟩
      · exact hnone
      · exact hlonger stem' mid' hstem' hlt

/-- The search among the first characters of a path ends and comes to the longest prefix, and no cut
    is inside a character. -/
theorem yields_searchFrom (table : List (String × String)) (front back : List Char) :
    ∃ result, searchFrom table (.ofList (front ++ back)) (byteSize front) = some result ∧
      Yields (leadsBehind table []) front back result := by
  -- each step goes on with fewer characters in front
  induction hlength : front.length using Nat.strongRecOn generalizing front back with
  | ind n ih =>
    by_cases hslash : '/' ∈ front
    · obtain ⟨stem, rest, rfl, hrest⟩ : ∃ stem rest, front = stem ++ '/' :: rest ∧ '/' ∉ rest := by
        cases hlast : lastSlash? front with
        | none => exact absurd hslash (lastSlash?_eq_none_iff.1 hlast)
        | some slash =>
          obtain ⟨stem, rest, hsplit, hrest, -⟩ := lastSlash?_eq_some_iff.1 hlast
          exact ⟨stem, rest, hsplit, hrest⟩
      rw [searchFrom_of_lastSlash table stem hrest back]
      cases hside : leadsBehind table [] stem with
      | some side => exact ⟨_, rfl, .at_lastSlash hrest hside back⟩
      | none =>
        by_cases hstem : stem = []
        · -- nothing comes before a slash at the start
          refine ⟨none, by simp only [if_pos hstem], .before_lastSlash hrest hside (.nothing ?_)⟩
          rw [hstem]
          intro stem' rest' hsplit
          exact absurd hsplit.symm (List.append_ne_nil_of_right_ne_nil _ (List.cons_ne_nil _ _))
        · have hshorter : stem.length < n := by
            rw [← hlength, List.length_append, List.length_cons]
            omega
          obtain ⟨result, hresult, hyields⟩ := ih stem.length hshorter stem ('/' :: rest ++ back) rfl
          exact ⟨result, by simp only [if_neg hstem, hresult], hyields.before_lastSlash hrest hside⟩
    · refine ⟨none, searchFrom_of_no_slash table hslash back, .nothing fun stem rest hsplit => ?_⟩
      rw [hsplit] at hslash
      exact absurd (List.mem_append_right _ List.mem_cons_self) hslash

/-- Every cut is at a character, and the two readings find the same route. -/
theorem aliasForAt_eq (table : List (String × String)) (path : String) :
    aliasForAt table path = some (aliasFor table path) := by
  unfold aliasForAt aliasFor
  cases counterpart table path with
  | some side => rfl
  | none =>
    obtain ⟨result, hresult, hyields⟩ := yields_searchFrom table path.toList []
    rw [List.append_nil, String.ofList_toList, byteSize_toList] at hresult
    show searchFrom table path path.utf8ByteSize = some (prefixRoute table [] path.toList)
    rw [hresult, hyields.unique (yields_prefixRoute table [] path.toList)]

/-! ### The longest registered prefix -/

/-- The registered text that decides about a path, with what is left of the path behind it. -/
inductive IsKey (table : List (String × String)) (path : String) : String → List Char → Prop where
  /-- The path itself is registered. -/
  | whole : Registered table path → IsKey table path path []
  /-- The path is not, and this is its longest registered prefix that ends in a slash. -/
  | longest (key : String) (rest : List Char) : ¬ Registered table path →
      Registered table key → key.toList.getLast? = some '/' →
      path.toList = key.toList ++ rest →
      (∀ other, Registered table other → other.toList.getLast? = some '/' →
        other.toList <+: path.toList → other.toList.length ≤ key.toList.length) →
      IsKey table path key rest

/-- The text is a side of a route with the rest behind it, and one slash between them if there is a
    rest. -/
inductive IsJoined (side : String) : List Char → String → Prop where
  /-- Nothing is left of the path. -/
  | alone : IsJoined side [] side
  /-- The side may end in the slash, and the rest does not start with one. -/
  | behind (stem rest : List Char) (route : String) : rest ≠ [] →
      side.toList = stem ∨ side.toList = stem ++ ['/'] → stem.getLast? ≠ some '/' →
      rest.head? ≠ some '/' → route.toList = stem ++ '/' :: rest → IsJoined side rest route

/-- A side with the rest of a path behind it, if there is a rest. -/
def joint (side : String) (rest : List Char) : String :=
  if rest = [] then side else routed side rest

theorem toList_routed_of_stem {stem : List Char} (rest : List Char)
    (hside : side.toList = stem ∨ side.toList = stem ++ ['/']) (hstem : stem.getLast? ≠ some '/') :
    (routed side rest).toList = stem ++ '/' :: rest := by
  unfold routed
  rcases hside with hside | hside
  · rw [hside, if_neg hstem, String.toList_append, String.toList_append, hside,
      String.toList_ofList, List.append_assoc]
    simp
  · rw [hside, if_pos List.getLast?_concat, String.toList_append, hside, String.toList_ofList,
      List.append_assoc, List.singleton_append]

/-- Behind a normal path, the rest comes after one slash. -/
theorem toList_routed {plain : List (List Char)} {trailing : Bool}
    (hplain : ∀ s ∈ plain, IsPlain s) (hside : side.toList = spell plain trailing)
    (rest : List Char) : (routed side rest).toList = plain.flatMap ('/' :: ·) ++ '/' :: rest := by
  obtain ⟨tail, htail, hbody⟩ := spell_eq plain trailing
  rw [hbody] at hside
  apply toList_routed_of_stem rest ?_ (getLast?_flatMap_ne hplain)
  rcases htail with rfl | rfl
  · left
    rw [hside, List.append_nil]
  · exact .inr hside

theorem isJoined_iff {rest : List Char} (hside : IsNormal side) (hrest : rest.head? ≠ some '/') :
    IsJoined side rest route ↔ route = joint side rest := by
  unfold joint
  constructor
  · intro h
    cases h with
    | alone => rw [if_pos rfl]
    | behind stem _ _ hne hsplit hstem _ hroute =>
      rw [if_neg hne, ← String.toList_inj, hroute, toList_routed_of_stem rest hsplit hstem]
  · rintro rfl
    by_cases hne : rest = []
    · rw [if_pos hne, hne]
      exact .alone
    · obtain ⟨stem, hsplit, hstem⟩ := hside.exists_stem
      rw [if_neg hne]
      exact .behind stem rest _ hne hsplit hstem hrest (toList_routed_of_stem rest hsplit hstem)

theorem leadsBehind_nil (stem : List Char) :
    leadsBehind table [] stem = counterpart table (slashed stem) := rfl

/-- No prefix leads anywhere exactly if none is registered. -/
theorem prefixRoute_eq_none_iff :
    prefixRoute table [] path.toList = none ↔
      ∀ key, Registered table key → key.toList.getLast? = some '/' →
        ¬ key.toList <+: path.toList := by
  have hyields := yields_prefixRoute table [] path.toList
  constructor
  · rintro hnone key hkey hslash ⟨rest, hsplit⟩
    rw [hnone] at hyields
    obtain ⟨stem, rfl⟩ := exists_eq_slashed hslash
    cases hyields with
    | nothing hall =>
      rw [slashed_append] at hsplit
      exact counterpart_eq_none_iff.1 (hall stem rest hsplit.symm) hkey
  · intro hall
    cases hroute : prefixRoute table [] path.toList with
    | none => rfl
    | some route =>
      rw [hroute] at hyields
      cases hyields with
      | longest stem rest side hsplit hside =>
        have hprefix : (slashed stem).toList <+: path.toList := by
          rw [hsplit, ← slashed_append]
          exact List.prefix_append _ rest
        exact absurd hprefix (hall _ (registered_of_counterpart hside) (getLast?_slashed stem))

/-- A path has no route exactly if neither it nor a prefix that ends in a slash is registered. -/
theorem aliasFor_eq_none_iff :
    aliasFor table path = none ↔ ¬ Registered table path ∧
      ∀ key, Registered table key → key.toList.getLast? = some '/' →
        ¬ key.toList <+: path.toList := by
  unfold aliasFor
  cases hwhole : counterpart table path with
  | some side =>
    have hregistered := registered_of_counterpart hwhole
    exact iff_of_false (Option.some_ne_none side) fun h => h.1 hregistered
  | none =>
    rw [and_iff_right (counterpart_eq_none_iff.1 hwhole)]
    exact prefixRoute_eq_none_iff

/-- The key of a path decides about its route. -/
theorem aliasFor_of_isKey {rest : List Char} (hkey : IsKey table path key rest)
    (hside : counterpart table key = some side) :
    aliasFor table path = some (joint side rest) := by
  unfold aliasFor joint
  cases hkey with
  | whole =>
    rw [hside, if_pos rfl]
  | longest _ _ hwhole hregistered hslash hsplit hlongest =>
    have hne : rest ≠ [] := by
      rintro rfl
      rw [List.append_nil, String.toList_inj] at hsplit
      rw [hsplit] at hwhole
      exact hwhole hregistered
    obtain ⟨stem, rfl⟩ := exists_eq_slashed hslash
    rw [slashed_append] at hsplit
    have hyields : Yields (leadsBehind table []) path.toList [] (some (routed side (rest ++ []))) := by
      refine .longest stem rest side hsplit hside fun stem' rest' hsplit' hlt => ?_
      rw [leadsBehind_nil, counterpart_eq_none_iff]
      intro hother
      have hprefix : (slashed stem').toList <+: path.toList := by
        rw [hsplit', ← slashed_append]
        exact List.prefix_append _ rest'
      have hle := hlongest _ hother (getLast?_slashed stem') hprefix
      rw [length_slashed, length_slashed] at hle
      omega
    rw [counterpart_eq_none_iff.2 hwhole, if_neg hne]
    show prefixRoute table [] path.toList = some (routed side rest)
    rw [(yields_prefixRoute table [] path.toList).unique hyields, List.append_nil]

/-- A path that has a route has a key. -/
theorem exists_isKey (h : aliasFor table path = some route) :
    ∃ key rest side, IsKey table path key rest ∧ counterpart table key = some side := by
  unfold aliasFor at h
  cases hwhole : counterpart table path with
  | some side => exact ⟨path, [], side, .whole (registered_of_counterpart hwhole), hwhole⟩
  | none =>
    rw [hwhole] at h
    have hroute : prefixRoute table [] path.toList = some route := h
    have hyields := yields_prefixRoute table [] path.toList
    rw [hroute] at hyields
    cases hyields with
    | longest stem rest side hsplit hside hlonger =>
      refine ⟨slashed stem, rest, side, .longest _ rest (counterpart_eq_none_iff.1 hwhole)
        (registered_of_counterpart hside) (getLast?_slashed stem) ?_ ?_, hside⟩
      · rw [slashed_append, hsplit]
      · -- a longer one would lead somewhere
        rintro other hother hslash ⟨rest', hsplit'⟩
        obtain ⟨stem', rfl⟩ := exists_eq_slashed hslash
        rw [slashed_append] at hsplit'
        rw [length_slashed, length_slashed]
        have hle : stem'.length ≤ stem.length := by
          apply Nat.le_of_not_lt
          intro hlt
          exact counterpart_eq_none_iff.1 (hlonger stem' rest' hsplit'.symm hlt) hother
        omega

/-! ### Routes in every table -/

/-- A table holds normal spellings only. -/
theorem AreKept.isNormal (h : AreKept table) (hkey : Registered table key) : IsNormal key := by
  obtain ⟨pair, hpair, rfl | rfl⟩ := hkey
  · exact isNormal_of_normalize (h.normal pair hpair).1
  · exact isNormal_of_normalize (h.normal pair hpair).2

/-- What is left of a normal path behind its key does not start with a slash. -/
theorem IsKey.head?_rest {rest : List Char} (hpath : IsNormal path)
    (h : IsKey table path key rest) : rest.head? ≠ some '/' := by
  intro hhead
  obtain ⟨more, rfl⟩ := List.head?_eq_some_iff.1 hhead
  cases h with
  | longest _ _ _ _ hslash hsplit _ =>
    obtain ⟨stem, rfl⟩ := exists_eq_slashed hslash
    rw [slashed_append] at hsplit
    exact hpath.no_doubled_slash stem more hsplit

/-- The table holds the routes that were registered and not replaced. A normal path has no route
    exactly if neither it nor a prefix that ends in a slash is registered. Else its route is the
    counterpart of its key with the rest of the path behind it. The search from the right ends,
    cuts the path at characters only and finds this route. -/
theorem aliasFor_longest {reserved : ProtectedTargets} {calls : List (String × String)}
    (htable : ((ofTargets reserved).registerAliases calls).aliases = table)
    (hpath : normalize path = some path) :
    table = standing (accepted calls) ∧
      (aliasFor table path = none ↔ ¬ Registered table path ∧
        ∀ key, Registered table key → key.toList.getLast? = some '/' →
          ¬ key.toList <+: path.toList) ∧
      (∀ route, aliasFor table path = some route ↔ ∃ key rest side,
        IsKey table path key rest ∧ IsCounterpart table key side ∧ IsJoined side rest route) ∧
      aliasForAt table path = some (aliasFor table path) := by
  have hkept : AreKept table := by
    rw [← htable]
    exact areKept_nil.registerAliases calls
  have hnormal := isNormal_of_normalize hpath
  have hjoined {key side route : String} {rest : List Char} (hkey : IsKey table path key rest)
      (hside : IsCounterpart table key side) :
      IsJoined side rest route ↔ route = joint side rest := by
    have hregistered := registered_counterpart ((counterpart_eq_some_iff hkept).2 hside)
    exact isJoined_iff (hkept.isNormal hregistered) (hkey.head?_rest hnormal)
  refine ⟨?_, aliasFor_eq_none_iff, fun route => ⟨fun hroute => ?_, ?_⟩, aliasForAt_eq table path⟩
  · rw [← htable, aliases_registerAliases_ofTargets]
  · obtain ⟨key, rest, side, hkey, hside⟩ := exists_isKey hroute
    have hcounterpart := (counterpart_eq_some_iff hkept).1 hside
    rw [aliasFor_of_isKey hkey hside] at hroute
    exact ⟨key, rest, side, hkey, hcounterpart,
      (hjoined hkey hcounterpart).2 (Option.some.inj hroute).symm⟩
  · rintro ⟨key, rest, side, hkey, hside, hroute⟩
    rw [aliasFor_of_isKey hkey ((counterpart_eq_some_iff hkept).2 hside),
      (hjoined hkey hside).1 hroute]

/-- Routes as they are registered: the first is replaced by the last, and one climbs. -/
def nestedCalls : List (String × String) :=
  [("/a/", "/short/"), ("b/", "//x"), ("/a/x/", "/long"), ("/..", "/z/"), ("/a/./", "/other/")]

/-- The routes that are kept. -/
def nestedTable : List (String × String) :=
  [("/b/", "/x"), ("/a/x/", "/long"), ("/a/", "/other/")]

/-- Two registered prefixes lead somewhere, and the longer one decides. Its side is given the slash
    that it lacks. -/
theorem aliasFor_longest_nested :
    ((ofTargets .default).registerAliases nestedCalls).aliases = nestedTable ∧
      normalize "/a/x/é.txt" = some "/a/x/é.txt" ∧
      (∃ key rest side, IsKey nestedTable "/a/x/é.txt" key rest ∧
        IsCounterpart nestedTable key side ∧ IsJoined side rest "/long/é.txt") ∧
      aliasForAt nestedTable "/a/x/é.txt" = some (some "/long/é.txt") := by
  have htable : ((ofTargets .default).registerAliases nestedCalls).aliases = nestedTable := by
    decide +kernel
  have hpath : normalize "/a/x/é.txt" = some "/a/x/é.txt" := by
    decide +kernel
  have hroute : aliasFor nestedTable "/a/x/é.txt" = some "/long/é.txt" := by
    decide +kernel
  obtain ⟨-, -, hkey, hat⟩ := aliasFor_longest htable hpath
  rw [hroute] at hat
  exact ⟨htable, hpath, (hkey _).1 hroute, hat⟩

end Hosting.Namespace
