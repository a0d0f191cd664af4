import UcoreSmp.LinkedRing

/-!
# The kernel's list header

The inline functions of `libs/list.h`, over an arbitrary type of entries, and
what each of them does to a ring.
-/

namespace UcoreSmp

open Function List

variable {ι : Type*} [DecidableEq ι]

def listInit (links : Links ι) (elm : ι) : Links ι where
  prev := update links.prev elm elm
  next := update links.next elm elm

/-- `__list_add`: insert between two known consecutive entries. -/
def listAddBetween (links : Links ι) (elm prev next : ι) : Links ι :=
  links.spliced elm prev next

def listAddBefore (links : Links ι) (listelm elm : ι) : Links ι :=
  listAddBetween links elm (links.prev listelm) listelm

def listAddAfter (links : Links ι) (listelm elm : ι) : Links ι :=
  listAddBetween links elm listelm (links.next listelm)

def listDel (links : Links ι) (listelm : ι) : Links ι :=
  links.bypassed (links.prev listelm) (links.next listelm)

def listNext (links : Links ι) (listelm : ι) : ι :=
  links.next listelm

def listDelInit (links : Links ι) (listelm : ι) : Links ι :=
  listInit (listDel links listelm) listelm

variable {links : Links ι} {front back : List ι}

theorem isRing_listInit (links : Links ι) (header : ι) :
    (listInit links header).IsRing header [] := by
  refine ⟨?_, by simp⟩
  simp [Links.Joined, listInit]

variable {header elm listelm : ι}

/-- Adding before the entry at a position inserts at that position; at the end
of the ring this entry is the header. -/
theorem isRing_listAddBefore (ring : links.IsRing header (front ++ back))
    (fresh : elm ∉ header :: (front ++ back)) :
    (listAddBefore links (back.headD header) elm).IsRing header (front ++ elm :: back) := by
  unfold listAddBefore listAddBetween
  rw [ring.prev_headD]
  exact ring.spliced fresh

theorem isRing_listInit_of_notMem {entries : List ι} (ring : links.IsRing header entries)
    (absent : elm ∉ header :: entries) : (listInit links elm).IsRing header entries := by
  refine ⟨Links.isChain_relinked ring.1 ?_ ?_, ring.2⟩
  · intro entry member
    have listed : entry ∈ header :: entries := by
      rwa [← cons_append, dropLast_concat] at member
    have apart : entry ≠ elm := fun same => absent (same ▸ listed)
    simp [listInit, apart]
  intro entry member
  have listed : entry ∈ header :: entries := by
    simpa [or_comm] using member
  have apart : entry ≠ elm := fun same => absent (same ▸ listed)
  simp [listInit, apart]

theorem listNext_listAddBefore_of_notMem {other : ι} (ring : links.IsRing header (front ++ back))
    (apart : other ≠ elm) (absent : other ∉ header :: (front ++ back)) :
    listNext (listAddBefore links (back.headD header) elm) other = listNext links other := by
  unfold listAddBefore listAddBetween listNext
  rw [ring.prev_headD]
  simp only [Links.spliced, update_of_ne apart, update_of_ne (Links.ne_getLastD absent)]

section

variable (ring : links.IsRing header (front ++ listelm :: back))

include ring

theorem isRing_listAddAfter (fresh : elm ∉ header :: (front ++ listelm :: back)) :
    (listAddAfter links listelm elm).IsRing header (front ++ listelm :: elm :: back) := by
  unfold listAddAfter listAddBetween
  rw [ring.next_entry]
  have regrouped : links.IsRing header ((front ++ [listelm]) ++ back) := by
    simpa using ring
  simpa using regrouped.spliced (by simpa using fresh)

theorem isRing_listDel : (listDel links listelm).IsRing header (front ++ back) :=
  ring.bypassed

theorem isRing_listDelInit : (listDelInit links listelm).IsRing header (front ++ back) := by
  apply isRing_listInit_of_notMem (isRing_listDel ring)
  have cycled : (header :: (front ++ listelm :: back)).Perm
      (listelm :: header :: (front ++ back)) := by
    rw [← cons_append, ← cons_append]
    exact perm_middle
  exact (nodup_cons.mp (cycled.nodup_iff.mp ring.2)).1

theorem listNext_listDelInit_of_notMem {other : ι}
    (absent : other ∉ header :: (front ++ listelm :: back)) :
    listNext (listDelInit links listelm) other = listNext links other := by
  have prevEq : links.prev listelm = front.getLastD header := ring.prev_headD
  have notBefore := Links.ne_getLastD absent
  have apart : other ≠ listelm := by
    rintro rfl
    exact absent (by simp)
  simp only [listDelInit, listDel, listInit, listNext, Links.bypassed, prevEq,
    update_of_ne apart, update_of_ne notBefore]

end

theorem listNext_listDelInit_self (links : Links ι) (listelm : ι) :
    listNext (listDelInit links listelm) listelm = listelm := by
  simp [listDelInit, listInit, listNext]

end UcoreSmp
