import Mathlib.Data.List.Chain

/-!
# Circular doubly linked lists

A heap of entries carries a forward and a backward link each.  `IsRing` says
that following the links from a header visits exactly a given list of distinct
entries and comes back.  The two mutations of such a list, inserting an entry
between two neighbours and bypassing an entry, are shown to insert into and
delete from the visited list.
-/

namespace UcoreSmp

open Function List

variable {ι : Type*}

structure Links (ι : Type*) where
  prev : ι → ι
  next : ι → ι

namespace Links

/-- Two entries linked to one another in both directions. -/
def Joined (links : Links ι) (before after : ι) : Prop :=
  links.next before = after ∧ links.prev after = before

/-- The entries visited from `header` are `entries`, in order and without
repetition, and the last one leads back to `header`. -/
def IsRing (links : Links ι) (header : ι) (entries : List ι) : Prop :=
  List.IsChain links.Joined (header :: (entries ++ [header])) ∧ (header :: entries).Nodup

variable {links relinked : Links ι} {header entry : ι} {front back entries : List ι}

/-- A chain survives every relinking that keeps the forward links of all but
its last entry and the backward links of all but its first. -/
theorem isChain_relinked (chain : List.IsChain links.Joined entries)
    (forward : ∀ entry ∈ entries.dropLast, relinked.next entry = links.next entry)
    (backward : ∀ entry ∈ entries.tail, relinked.prev entry = links.prev entry) :
    List.IsChain relinked.Joined entries := by
  induction entries with
  | nil => exact List.IsChain.nil
  | cons first rest ih =>
    cases rest with
    | nil => exact List.IsChain.singleton first
    | cons second rest =>
      obtain ⟨joined, chain⟩ := isChain_cons_cons.mp chain
      refine isChain_cons_cons.mpr ⟨⟨?_, ?_⟩, ?_⟩
      · rw [forward first (by simp)]
        exact joined.1
      · rw [backward second (by simp)]
        exact joined.2
      apply ih chain
      · intro entry member
        exact forward entry (by simp [member])
      · intro entry member
        exact backward entry (mem_of_mem_tail member)

theorem exists_init_getLastD (header : ι) (front : List ι) :
    ∃ init, header :: front = init ++ [front.getLastD header] := by
  rcases eq_nil_or_concat' front with rfl | ⟨init, last, rfl⟩
  · exact ⟨[], rfl⟩
  · exact ⟨header :: init, by simp⟩

theorem ne_getLastD (absent : entry ∉ header :: (front ++ back)) :
    entry ≠ front.getLastD header := by
  obtain ⟨init, initEq⟩ := exists_init_getLastD header front
  rintro rfl
  rw [← cons_append, initEq] at absent
  simp at absent

theorem exists_rest_headD (header : ι) (back : List ι) :
    ∃ rest, back ++ [header] = back.headD header :: rest := by
  cases back with
  | nil => exact ⟨[], rfl⟩
  | cons entry back => exact ⟨back ++ [header], rfl⟩

theorem IsRing.joined_between (ring : links.IsRing header (front ++ back)) :
    links.Joined (front.getLastD header) (back.headD header) := by
  obtain ⟨init, initEq⟩ := exists_init_getLastD header front
  obtain ⟨rest, restEq⟩ := exists_rest_headD header back
  have chain := ring.1
  rw [append_assoc, ← cons_append, initEq, restEq, append_assoc, singleton_append,
    isChain_append_cons_cons] at chain
  exact chain.2.1

theorem IsRing.next_header (ring : links.IsRing header entries) :
    links.next header = entries.headD header := by
  have regrouped : links.IsRing header ([] ++ entries) := ring
  exact regrouped.joined_between.1

theorem IsRing.next_entry (ring : links.IsRing header (front ++ entry :: back)) :
    links.next entry = back.headD header := by
  have regrouped : links.IsRing header ((front ++ [entry]) ++ back) := by
    simpa using ring
  simpa using regrouped.joined_between.1

theorem IsRing.prev_headD (ring : links.IsRing header (front ++ back)) :
    links.prev (back.headD header) = front.getLastD header :=
  ring.joined_between.2

/-- Relinking the forward link of the entry before a position and the backward
link of the entry after it keeps the two chains on either side. -/
theorem isChain_around (relinked : Links ι) {before after : ι} {init rest : List ι}
    (nodup : (header :: (front ++ back)).Nodup)
    (initEq : header :: front = init ++ [before]) (restEq : back ++ [header] = after :: rest)
    (forward : ∀ entry ∈ header :: (front ++ back), entry ≠ before →
      relinked.next entry = links.next entry)
    (backward : ∀ entry ∈ header :: (front ++ back), entry ≠ after →
      relinked.prev entry = links.prev entry)
    (chains : List.IsChain links.Joined (init ++ [before]) ∧
      List.IsChain links.Joined (after :: rest)) :
    List.IsChain relinked.Joined (init ++ [before]) ∧
      List.IsChain relinked.Joined (after :: rest) := by
  have frontNodup : (init ++ [before]).Nodup := by
    rw [← initEq]
    exact nodup.sublist (by simp)
  have backNodup : (after :: rest).Nodup := by
    rw [← restEq]
    exact (perm_append_singleton header back).nodup_iff.mpr (nodup.sublist (by simp))
  have beforeMem : before ∈ header :: front := by simp [initEq]
  have afterMem : after ∈ back ++ [header] := by simp [restEq]
  rw [nodup_cons, nodup_append] at nodup
  obtain ⟨headerFresh, -, -, apart⟩ := nodup
  constructor
  · apply isChain_relinked chains.1
    · intro entry member
      rw [dropLast_concat] at member
      apply forward
      · have : entry ∈ header :: front := by simp [initEq, member]
        simp at this ⊢
        tauto
      · exact (nodup_append.mp frontNodup).2.2 entry member before (by simp)
    intro entry member
    rw [← initEq, tail_cons] at member
    apply backward entry (by simp [member])
    rintro rfl
    rcases mem_append.mp afterMem with inBack | isHeader
    · exact apart entry member entry inBack rfl
    · rw [mem_singleton] at isHeader
      exact headerFresh (by simp [← isHeader, member])
  apply isChain_relinked chains.2
  · intro entry member
    rw [← restEq, dropLast_concat] at member
    apply forward entry (by simp [member])
    rintro rfl
    rcases mem_cons.mp beforeMem with isHeader | inFront
    · exact headerFresh (by simp [← isHeader, member])
    · exact apart entry inFront entry member rfl
  intro entry member
  rw [tail_cons] at member
  apply backward
  · have : entry ∈ back ++ [header] := by simp [restEq, member]
    simp at this ⊢
    tauto
  · rintro rfl
    exact (nodup_cons.mp backNodup).1 member

section Mutation

variable [DecidableEq ι]

def spliced (links : Links ι) (entry before after : ι) : Links ι where
  next := update (update links.next before entry) entry after
  prev := update (update links.prev after entry) entry before

def bypassed (links : Links ι) (before after : ι) : Links ι where
  next := update links.next before after
  prev := update links.prev after before

theorem IsRing.spliced
    (ring : links.IsRing header (front ++ back)) (fresh : entry ∉ header :: (front ++ back)) :
    (links.spliced entry (front.getLastD header) (back.headD header)).IsRing
      header (front ++ entry :: back) := by
  obtain ⟨init, initEq⟩ := exists_init_getLastD header front
  obtain ⟨rest, restEq⟩ := exists_rest_headD header back
  obtain ⟨chain, nodup⟩ := ring
  have beforeNe := (ne_getLastD fresh).symm
  generalize front.getLastD header = before at initEq beforeNe ⊢
  generalize back.headD header = after at restEq ⊢
  have afterNe : after ≠ entry := by
    rintro rfl
    have : after ∈ back ++ [header] := by simp [restEq]
    exact fresh (by simp at this ⊢; tauto)
  have goalSplit : header :: (front ++ entry :: back ++ [header]) =
      init ++ before :: entry :: after :: rest := by
    rw [append_assoc, ← cons_append, initEq, cons_append, restEq]
    simp
  rw [append_assoc, ← cons_append, initEq, restEq, append_assoc,
    singleton_append, isChain_append_cons_cons] at chain
  have apart : ∀ other ∈ header :: (front ++ back), other ≠ entry :=
    fun other member same => fresh (same ▸ member)
  refine ⟨?_, ?_⟩
  · obtain ⟨frontChain, backChain⟩ := isChain_around (links.spliced entry before after) nodup
      initEq restEq (fun other member ne => by simp [Links.spliced, apart other member, ne])
      (fun other member ne => by simp [Links.spliced, apart other member, ne])
      ⟨chain.1, chain.2.2⟩
    rw [goalSplit, isChain_append_cons_cons, isChain_cons_cons]
    exact ⟨frontChain, by simp [Joined, Links.spliced, beforeNe],
      by simp [Joined, Links.spliced, afterNe], backChain⟩
  have cycled : (header :: (front ++ entry :: back)).Perm (entry :: header :: (front ++ back)) := by
    rw [← cons_append, ← cons_append]
    exact perm_middle
  rw [cycled.nodup_iff, nodup_cons]
  exact ⟨fresh, nodup⟩

theorem IsRing.bypassed (ring : links.IsRing header (front ++ entry :: back)) :
    (links.bypassed (links.prev entry) (links.next entry)).IsRing header (front ++ back) := by
  have nextEq := ring.next_entry
  have prevEq : links.prev entry = front.getLastD header := ring.prev_headD
  rw [nextEq, prevEq]
  obtain ⟨init, initEq⟩ := exists_init_getLastD header front
  obtain ⟨rest, restEq⟩ := exists_rest_headD header back
  obtain ⟨chain, nodup⟩ := ring
  generalize front.getLastD header = before at initEq ⊢
  generalize back.headD header = after at restEq ⊢
  have ringNodup : (header :: (front ++ back)).Nodup :=
    nodup.sublist (by simp)
  have goalSplit : header :: (front ++ back ++ [header]) = init ++ before :: after :: rest := by
    rw [append_assoc, ← cons_append, initEq, restEq]
    simp
  rw [append_assoc, ← cons_append, initEq, cons_append, restEq,
    append_assoc, singleton_append, isChain_append_cons_cons,
    isChain_cons_cons] at chain
  obtain ⟨frontChain, backChain⟩ := isChain_around (links.bypassed before after) ringNodup
    initEq restEq (fun _ _ ne => by simp [Links.bypassed, ne])
    (fun _ _ ne => by simp [Links.bypassed, ne]) ⟨chain.1, chain.2.2.2⟩
  refine ⟨?_, ringNodup⟩
  rw [goalSplit, isChain_append_cons_cons]
  exact ⟨frontChain, by simp [Joined, Links.bypassed], backChain⟩

end Mutation

end Links

end UcoreSmp
