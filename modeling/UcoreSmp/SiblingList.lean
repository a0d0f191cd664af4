import Mathlib.Data.List.Basic

/-!
# Null-terminated doubly linked lists

Each entry leads to an older and a younger neighbour, or to none at the ends of
the list.  `Siblings` says that a list of entries is linked in both directions
between two given neighbours.  Putting an entry in front, taking one out and
taking the first one away keep the rest linked.
-/

namespace UcoreSmp

open List

variable {ι : Type*}

/-- The entries are linked in both directions, from `before` in front of the
first to `after` behind the last. -/
def Siblings (older younger : ι → Option ι) : Option ι → Option ι → List ι → Prop
  | _, _, [] => True
  | before, after, entry :: rest =>
    younger entry = before ∧ older entry = rest.head?.or after ∧
      Siblings older younger (some entry) after rest

section Rules

variable {older younger older' younger' : ι → Option ι} {before after : Option ι}
  {list front back : List ι} {entry : ι}

theorem Siblings.congr (linked : Siblings older younger before after list)
    (olderEq : ∀ entry ∈ list, older' entry = older entry)
    (youngerEq : ∀ entry ∈ list, younger' entry = younger entry) :
    Siblings older' younger' before after list := by
  induction list generalizing before with
  | nil => trivial
  | cons first rest ih =>
    obtain ⟨youngerFirst, olderFirst, linked⟩ := linked
    refine ⟨?_, ?_, ih linked ?_ ?_⟩
    · rw [youngerEq first (by simp), youngerFirst]
    · rw [olderEq first (by simp), olderFirst]
    · exact fun entry member => olderEq entry (by simp [member])
    · exact fun entry member => youngerEq entry (by simp [member])

theorem siblings_append : Siblings older younger before after (front ++ back) ↔
      Siblings older younger before (back.head?.or after) front ∧
        Siblings older younger (front.getLast?.or before) after back := by
  induction front generalizing before with
  | nil => simp [Siblings]
  | cons first front ih =>
    have lastEq : ((first :: front).getLast?.or before) = front.getLast?.or (some first) := by
      cases front with
      | nil => simp
      | cons second front =>
        rw [getLast?_cons_cons, getLast?_eq_some_getLast (by simp)]
        simp only [Option.some_or]
    have headEq : (front ++ back).head?.or after = front.head?.or (back.head?.or after) := by
      cases front with
      | nil => simp
      | cons second front => simp
    simp only [cons_append, Siblings, ih, lastEq, headEq]
    tauto

theorem Siblings.retarget_after {after' : Option ι}
    (linked : Siblings older younger before after list)
    (olderEq : ∀ entry ∈ list, list.getLast? ≠ some entry → older' entry = older entry)
    (last : ∀ entry, list.getLast? = some entry → older' entry = after')
    (youngerEq : ∀ entry ∈ list, younger' entry = younger entry) (nodup : list.Nodup) :
    Siblings older' younger' before after' list := by
  induction list generalizing before with
  | nil => trivial
  | cons first rest ih =>
    obtain ⟨youngerFirst, olderFirst, linked⟩ := linked
    rw [nodup_cons] at nodup
    cases rest with
    | nil =>
      refine ⟨?_, ?_, trivial⟩
      · rw [youngerEq first (by simp), youngerFirst]
      · simpa using last first (by simp)
    | cons second rest =>
      have lastEq : (first :: second :: rest).getLast? = (second :: rest).getLast? :=
        getLast?_cons_cons
      have notLast : (first :: second :: rest).getLast? ≠ some first := by
        exact fun isLast => nodup.1 (mem_of_getLast? isLast)
      refine ⟨?_, ?_, ih linked ?_ ?_ ?_ nodup.2⟩
      · rw [youngerEq first (by simp), youngerFirst]
      · rw [olderEq first (by simp) notLast, olderFirst]
        simp
      · intro entry member isNotLast
        exact olderEq entry (mem_cons_of_mem _ member) (by rwa [lastEq])
      · intro entry isLast
        exact last entry (by rwa [lastEq])
      · exact fun entry member => youngerEq entry (mem_cons_of_mem _ member)

theorem Siblings.retarget_before {before' : Option ι}
    (linked : Siblings older younger before after list)
    (olderEq : ∀ entry ∈ list, older' entry = older entry)
    (youngerEq : ∀ entry ∈ list, list.head? ≠ some entry → younger' entry = younger entry)
    (first : ∀ entry, list.head? = some entry → younger' entry = before')
    (nodup : list.Nodup) : Siblings older' younger' before' after list := by
  cases list with
  | nil => trivial
  | cons entry rest =>
    obtain ⟨-, olderFirst, linked⟩ := linked
    rw [nodup_cons] at nodup
    refine ⟨first entry rfl, ?_, linked.congr ?_ ?_⟩
    · rw [olderEq entry (by simp), olderFirst]
    · exact fun other member => olderEq other (by simp [member])
    intro other member
    apply youngerEq other (by simp [member])
    rintro isFirst
    obtain rfl : entry = other := by simpa using isFirst
    exact nodup.1 member

theorem Siblings.push (linked : Siblings older younger none none list) (nodup : list.Nodup)
    (olderEntry : older' entry = list.head?) (youngerEntry : younger' entry = none)
    (olderEq : ∀ other ∈ list, older' other = older other)
    (youngerEq : ∀ other ∈ list, list.head? ≠ some other → younger' other = younger other)
    (first : ∀ other, list.head? = some other → younger' other = some entry) :
    Siblings older' younger' none none (entry :: list) :=
  ⟨youngerEntry, by simpa using olderEntry, linked.retarget_before olderEq youngerEq first nodup⟩

theorem Siblings.remove (linked : Siblings older younger none none (front ++ entry :: back))
    (nodup : (front ++ entry :: back).Nodup)
    (olderEq : ∀ other ∈ front ++ back, front.getLast? ≠ some other → older' other = older other)
    (last : ∀ other, front.getLast? = some other → older' other = back.head?)
    (youngerEq : ∀ other ∈ front ++ back, back.head? ≠ some other → younger' other = younger other)
    (first : ∀ other, back.head? = some other → younger' other = front.getLast?) :
    Siblings older' younger' none none (front ++ back) := by
  rw [siblings_append] at linked ⊢
  obtain ⟨linkedFront, -, -, linkedBack⟩ := linked
  rw [nodup_append] at nodup
  obtain ⟨nodupFront, nodupBack, apart⟩ := nodup
  rw [nodup_cons] at nodupBack
  constructor
  · apply linkedFront.retarget_after _ _ _ nodupFront
    · exact fun other member => olderEq other (by simp [member])
    · intro other isLast
      simpa using last other isLast
    intro other member
    apply youngerEq other (by simp [member])
    intro isFirst
    exact apart other member other (by simp [mem_of_mem_head? isFirst]) rfl
  apply linkedBack.retarget_before _ _ _ nodupBack.2
  · intro other member
    apply olderEq other (by simp [member])
    intro isLast
    exact apart other (mem_of_getLast? isLast) other (by simp [member]) rfl
  · exact fun other member => youngerEq other (by simp [member])
  · intro other isFirst
    simpa using first other isFirst

theorem Siblings.middle (linked : Siblings older younger none none (front ++ entry :: back)) :
    younger entry = front.getLast? ∧ older entry = back.head? := by
  rw [siblings_append] at linked
  obtain ⟨-, youngerEntry, olderEntry, -⟩ := linked
  exact ⟨by simpa using youngerEntry, by simpa using olderEntry⟩

end Rules

end UcoreSmp
