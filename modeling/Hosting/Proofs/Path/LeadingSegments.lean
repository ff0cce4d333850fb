import Hosting.Proofs.Path.Normal
import Hosting.Proofs.Text.LetterCase
import Hosting.ProtectedTargets

/-! # Protection by the first segment

    A reserved name is compared with the characters at the start of a path, and the
    comparison ends where a segment ends. So if every reserved name is one segment, the
    first segment of a path decides whether the path is protected.

    - `AreSegments`: the reserved names are single segments.
    - `isProtected_append`: what comes behind the first segment makes no difference.
    - `isProtected_below`: below a path other than the root, all is protected or nothing.
-/

namespace Hosting

open VirtualPath

namespace ProtectedTargets

/-- Every target is a slash and one segment. -/
def AreSegments (t : ProtectedTargets) : Prop :=
  ∀ target ∈ t.targets, target.toList.head? = some '/' ∧ '/' ∉ target.toList.tail

instance (t : ProtectedTargets) : Decidable t.AreSegments :=
  inferInstanceAs (Decidable (∀ target ∈ t.targets, _ ∧ _))

/-- The comparison with one segment ends before the next one. -/
theorem reserves_append {reserved : List Char} (hreserved : '/' ∉ reserved) (s : List Char)
    {tail : List Char} (htail : tail = [] ∨ ∃ rest, tail = '/' :: rest) :
    reserves reserved (s ++ tail) = reserves reserved s := by
  induction reserved generalizing s with
  | nil =>
    cases s with
    | nil => rcases htail with rfl | ⟨rest, rfl⟩ <;> rfl
    | cons d s => rfl
  | cons c reserved ih =>
    obtain ⟨hc, hrest⟩ : c ≠ '/' ∧ '/' ∉ reserved := by
      rw [List.mem_cons, not_or] at hreserved
      exact ⟨Ne.symm hreserved.1, hreserved.2⟩
    cases s with
    | nil =>
      rcases htail with rfl | ⟨rest, rfl⟩
      · rfl
      · -- the reserved name goes on where the segment has ended
        have hlower : '/'.toLower ≠ c.toLower := fun heq =>
          hc (Text.toLower_eq_slash_iff.1 heq.symm)
        rw [List.nil_append, reserves, reserves, afterReserved.eq_def, afterReserved.eq_def _ []]
        simp only [if_neg hlower]
    | cons d s =>
      unfold reserves at ih ⊢
      rw [List.cons_append, afterReserved, afterReserved]
      by_cases heq : d.toLower = c.toLower
      · rw [if_pos heq, if_pos heq]
        exact ih hrest s
      · rw [if_neg heq, if_neg heq]

theorem isProtected_ofList {t : ProtectedTargets} {cs : List Char} (h : cs ≠ []) :
    t.isProtected (.ofList cs) =
      t.targets.any fun reserved => reserves reserved.toList (oneSlash cs) := by
  have hne : (String.ofList cs).isEmpty = false := by
    rw [Bool.eq_false_iff]
    intro hempty
    have htext := congrArg String.toList (String.isEmpty_iff.1 hempty)
    exact h (by simpa using htext)
  simp only [isProtected, hne, Bool.not_false, Bool.true_and, String.toList_ofList]

/-- Only one slash stands before a plain segment. -/
theorem oneSlash_append {s : List Char} (hs : IsPlain s) (tail : List Char) :
    oneSlash ('/' :: (s ++ tail)) = '/' :: (s ++ tail) := by
  cases s with
  | nil => exact absurd rfl hs.ne_nil
  | cons c s =>
    have hc : c ≠ '/' := by
      rintro rfl
      exact hs.no_slash (by simp)
    rw [List.cons_append, oneSlash]
    rintro cs heq
    exact hc (List.cons.inj (List.cons.inj heq).2).1

theorem isProtected_append {t : ProtectedTargets} (ht : t.AreSegments) {s : List Char}
    (hs : IsPlain s) {tail : List Char} (htail : tail = [] ∨ ∃ rest, tail = '/' :: rest) :
    t.isProtected (.ofList ('/' :: (s ++ tail))) = t.isProtected (.ofList ('/' :: s)) := by
  have hsame : ∀ target ∈ t.targets,
      reserves target.toList ('/' :: (s ++ tail)) = reserves target.toList ('/' :: s) := by
    intro target htarget
    obtain ⟨hhead, hrest⟩ := ht target htarget
    obtain ⟨rest, htext⟩ : ∃ rest, target.toList = '/' :: rest := List.head?_eq_some_iff.1 hhead
    rw [htext] at hrest ⊢
    -- the slashes at the start are the same
    have hback := reserves_append hrest s htail
    unfold reserves at hback ⊢
    rw [afterReserved, afterReserved, if_pos rfl, if_pos rfl]
    exact hback
  have honly := oneSlash_append hs []
  rw [List.append_nil] at honly
  rw [isProtected_ofList (List.cons_ne_nil _ _), isProtected_ofList (List.cons_ne_nil _ _),
    oneSlash_append hs, honly, Bool.eq_iff_iff, List.any_eq_true, List.any_eq_true]
  constructor
  · rintro ⟨target, hmem, h⟩
    exact ⟨target, hmem, by rwa [hsame target hmem] at h⟩
  · rintro ⟨target, hmem, h⟩
    exact ⟨target, hmem, by rwa [hsame target hmem]⟩

theorem isProtected_spell {t : ProtectedTargets} (ht : t.AreSegments) {s : List Char}
    (hs : IsPlain s) (plain : List (List Char)) (trailing : Bool) :
    t.isProtected (.ofList (spell (s :: plain) trailing)) = t.isProtected (.ofList ('/' :: s)) := by
  obtain ⟨tail, htail, hspell⟩ := spell_eq (s :: plain) trailing
  rw [hspell, List.flatMap_cons, List.cons_append, List.cons_append, List.append_assoc]
  refine isProtected_append ht hs ?_
  -- behind the segment comes the next one, or the slash at the end
  cases plain with
  | nil => exact htail.imp_right fun h => ⟨[], h⟩
  | cons _ _ => exact .inr ⟨_, rfl⟩

/-- A path whose segments go on behind those of another one is protected exactly if that one is. -/
theorem isProtected_below {t : ProtectedTargets} (ht : t.AreSegments)
    {path normal path' normal' : String} {plain more : List (List Char)}
    (hread : plainSegments path.toList = some plain)
    (hread' : plainSegments path'.toList = some (plain ++ more))
    (hn : normalize path = some normal) (hn' : normalize path' = some normal')
    (hroot : normal ≠ "/") : t.isProtected normal' = t.isProtected normal := by
  have hnormal : .ofList (spell plain (path.toList.getLast? == some '/')) = normal := by
    simpa [VirtualPath.normalize, normalizeChars, hread] using hn
  have hnormal' : .ofList (spell (plain ++ more) (path'.toList.getLast? == some '/')) = normal' := by
    simpa [VirtualPath.normalize, normalizeChars, hread'] using hn'
  cases plain with
  | nil => exact absurd hnormal.symm (by simpa [spell] using hroot)
  | cons s plain =>
    have hs := isPlain_of_plainSegments hread s List.mem_cons_self
    rw [← hnormal, ← hnormal', List.cons_append, isProtected_spell ht hs, isProtected_spell ht hs]

end ProtectedTargets

end Hosting
