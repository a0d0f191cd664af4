import UcoreSmp.Family

/-!
# Well-linked families

The children of every process form a linked list, from the youngest at `cptr` to
the eldest.  The three places that splice these lists by hand, `set_links`,
`remove_links` and the loop of `do_exit`, keep them linked.
-/

namespace UcoreSmp

namespace Family

open Function Member

/-- Each process for which `live` holds has as children exactly the processes
for which `listed` holds and that name it as their parent. -/
structure Kinship (procs : Nat → Member) (live listed : Nat → Prop)
    (children : Nat → List Nat) : Prop where
  head : ∀ p, live p → (procs p).cptr = (children p).head?
  linked : ∀ p, live p →
    Siblings (fun c => (procs c).optr) (fun c => (procs c).yptr) none none (children p)
  nodup : ∀ p, live p → (children p).Nodup
  mem : ∀ p c, live p → (c ∈ children p ↔ listed c ∧ (procs c).parent = some p)

section Splices

variable {procs procs' : Nat → Member} {live live' listed listed' : Nat → Prop}
  {children : Nat → List Nat} {parent c : Nat}

section

variable (kin : Kinship procs live listed children)

include kin

theorem Kinship.restrict (fewer : ∀ p, live' p → live p) : Kinship procs live' listed children :=
  ⟨fun p isLive => kin.head p (fewer p isLive), fun p isLive => kin.linked p (fewer p isLive),
    fun p isLive => kin.nodup p (fewer p isLive), fun p c isLive => kin.mem p c (fewer p isLive)⟩

theorem Kinship.congr (cptr : ∀ p, live p → (procs' p).cptr = (procs p).cptr)
    (parents : ∀ c, listed' c ↔ listed c)
    (same : ∀ c, listed c → (procs' c).optr = (procs c).optr ∧ (procs' c).yptr = (procs c).yptr ∧
      (procs' c).parent = (procs c).parent) : Kinship procs' live listed' children := by
  have child : ∀ p c, live p → c ∈ children p → listed c :=
    fun p c isLive member => ((kin.mem p c isLive).mp member).1
  refine ⟨?_, ?_, kin.nodup, ?_⟩
  · intro p isLive
    rw [cptr p isLive, kin.head p isLive]
  · intro p isLive
    apply (kin.linked p isLive).congr
    · exact fun c member => (same c (child p c isLive member)).1
    · exact fun c member => (same c (child p c isLive member)).2.1
  intro p c isLive
  rw [kin.mem p c isLive, parents]
  constructor
  · rintro ⟨isListed, isChild⟩
    exact ⟨isListed, by rw [(same c isListed).2.2, isChild]⟩
  · rintro ⟨isListed, isChild⟩
    exact ⟨isListed, by rw [← (same c isListed).2.2, isChild]⟩

theorem Kinship.push (parentLive : live parent) (fresh : ¬ listed c)
    (cptrParent : (procs' parent).cptr = some c)
    (cptr : ∀ p, live p → p ≠ parent → (procs' p).cptr = (procs p).cptr)
    (optrChild : (procs' c).optr = (procs parent).cptr) (yptrChild : (procs' c).yptr = none)
    (parentChild : (procs' c).parent = some parent)
    (optr : ∀ d, d ≠ c → (procs' d).optr = (procs d).optr)
    (yptr : ∀ d, d ≠ c → (procs parent).cptr ≠ some d → (procs' d).yptr = (procs d).yptr)
    (yptrElder : ∀ d, d ≠ c → (procs parent).cptr = some d → (procs' d).yptr = some c)
    (parents : ∀ d, d ≠ c → (procs' d).parent = (procs d).parent) :
    Kinship procs' live (fun d => d = c ∨ listed d)
      (update children parent (c :: children parent)) := by
  have apart : ∀ p d, live p → d ∈ children p → d ≠ c := by
    rintro p d isLive member rfl
    exact fresh ((kin.mem p d isLive).mp member).1
  have headEq := kin.head parent parentLive
  constructor
  · intro p isLive
    by_cases isParent : p = parent
    · simp [isParent, cptrParent]
    · simp [isParent, cptr p isLive isParent, kin.head p isLive]
  · intro p isLive
    by_cases isParent : p = parent
    · subst isParent
      rw [update_self]
      apply (kin.linked p isLive).push (kin.nodup p isLive)
      · rw [optrChild, headEq]
      · exact yptrChild
      · exact fun d member => optr d (apart p d isLive member)
      · intro d member notHead
        exact yptr d (apart p d isLive member) (by rwa [headEq])
      · intro d isHead
        exact yptrElder d (apart p d isLive (List.mem_of_mem_head? isHead)) (by rwa [headEq])
    rw [update_of_ne isParent]
    apply (kin.linked p isLive).congr
    · exact fun d member => optr d (apart p d isLive member)
    intro d member
    apply yptr d (apart p d isLive member)
    intro isElder
    have inParent : d ∈ children parent := List.mem_of_mem_head? (by rw [← headEq]; exact isElder)
    have first := ((kin.mem p d isLive).mp member).2
    have second := ((kin.mem parent d parentLive).mp inParent).2
    rw [first] at second
    exact isParent (Option.some.inj second)
  · intro p isLive
    by_cases isParent : p = parent
    · subst isParent
      rw [update_self, List.nodup_cons]
      exact ⟨fun member => apart p c isLive member rfl, kin.nodup p isLive⟩
    · rw [update_of_ne isParent]
      exact kin.nodup p isLive
  intro p d isLive
  by_cases isChild : d = c
  · subst isChild
    have notIn : d ∉ children p := fun member => apart p d isLive member rfl
    by_cases isParent : p = parent
    · subst isParent
      simp [parentChild]
    · have other : parent ≠ p := fun same => isParent same.symm
      simp [isParent, notIn, parentChild, other]
  rw [parents d isChild]
  by_cases isParent : p = parent
  · subst isParent
    simp [isChild, kin.mem p d isLive]
  · simp [isParent, isChild, kin.mem p d isLive]

theorem Kinship.remove (parentLive : live parent) {front back : List Nat}
    (split : children parent = front ++ c :: back)
    (cptrParent : (procs' parent).cptr = if front = [] then back.head? else (procs parent).cptr)
    (cptr : ∀ p, p ≠ parent → (procs' p).cptr = (procs p).cptr)
    (optr : ∀ d, front.getLast? ≠ some d → (procs' d).optr = (procs d).optr)
    (optrYounger : ∀ d, front.getLast? = some d → (procs' d).optr = back.head?)
    (yptr : ∀ d, back.head? ≠ some d → (procs' d).yptr = (procs d).yptr)
    (yptrElder : ∀ d, back.head? = some d → (procs' d).yptr = front.getLast?)
    (parents : ∀ d, (procs' d).parent = (procs d).parent) :
    Kinship procs' live (fun d => listed d ∧ d ≠ c) (update children parent (front ++ back)) := by
  have linked := kin.linked parent parentLive
  have nodup := kin.nodup parent parentLive
  rw [split] at linked nodup
  have childParent : ∀ d ∈ front ++ c :: back, (procs d).parent = some parent := by
    intro d member
    rw [← split] at member
    exact ((kin.mem parent d parentLive).mp member).2
  have otherList : ∀ p d, live p → p ≠ parent → d ∈ children p → d ∉ front ++ c :: back := by
    intro p d isLive isOther member inParent
    have first := ((kin.mem p d isLive).mp member).2
    rw [childParent d inParent] at first
    exact isOther (Option.some.inj first).symm
  have notC : c ∉ front ++ back := by
    rw [List.nodup_middle, List.nodup_cons] at nodup
    exact nodup.1
  constructor
  · intro p isLive
    by_cases isParent : p = parent
    · subst isParent
      rw [update_self, cptrParent]
      cases front with
      | nil => simp
      | cons first front =>
        rw [kin.head p isLive, split]
        simp
    · rw [update_of_ne isParent, cptr p isParent, kin.head p isLive]
  · intro p isLive
    by_cases isParent : p = parent
    · subst isParent
      rw [update_self]
      exact linked.remove nodup (fun d _ => optr d) optrYounger (fun d _ => yptr d) yptrElder
    rw [update_of_ne isParent]
    apply (kin.linked p isLive).congr
    · intro d member
      apply optr
      intro isLast
      exact otherList p d isLive isParent member (by simp [List.mem_of_getLast? isLast])
    intro d member
    apply yptr
    intro isFirst
    exact otherList p d isLive isParent member (by simp [List.mem_of_mem_head? isFirst])
  · intro p isLive
    by_cases isParent : p = parent
    · subst isParent
      rw [update_self]
      rw [List.nodup_middle, List.nodup_cons] at nodup
      exact nodup.2
    · rw [update_of_ne isParent]
      exact kin.nodup p isLive
  intro p d isLive
  rw [parents]
  by_cases isParent : p = parent
  · subst isParent
    rw [update_self]
    have memEq := kin.mem p d isLive
    rw [split] at memEq
    by_cases isChild : d = c
    · subst isChild
      tauto
    have dropped : d ∈ front ++ back ↔ d ∈ front ++ c :: back := by
      simp [isChild]
    tauto
  rw [update_of_ne isParent, kin.mem p d isLive]
  constructor
  · rintro ⟨isListed, isChild⟩
    refine ⟨⟨isListed, ?_⟩, isChild⟩
    rintro rfl
    rw [childParent d (by simp)] at isChild
    exact isParent (Option.some.inj isChild).symm
  · rintro ⟨⟨isListed, -⟩, isChild⟩
    exact ⟨isListed, isChild⟩

theorem Kinship.newcomer (cptr : (procs c).cptr = none)
    (noChild : ∀ d, listed d → (procs d).parent ≠ some c) :
    Kinship procs (fun p => p = c ∨ live p) listed (update children c []) := by
  have old : ∀ p, p ≠ c → (p = c ∨ live p) → live p := fun p apart isLive =>
    isLive.resolve_left apart
  constructor
  · intro p isLive
    by_cases same : p = c
    · simp [same, cptr]
    · simpa [same] using kin.head p (old p same isLive)
  · intro p isLive
    by_cases same : p = c
    · simp [same, Siblings]
    · simpa [same] using kin.linked p (old p same isLive)
  · intro p isLive
    by_cases same : p = c
    · simp [same]
    · simpa [same] using kin.nodup p (old p same isLive)
  intro p d isLive
  by_cases same : p = c
  · subst same
    simpa using fun isListed => noChild d isListed
  · simpa [same] using kin.mem p d (old p same isLive)

end

end Splices

/-- A process without its links to its children and siblings. -/
def Member.unlinked (member : Member) : Member :=
  { member with cptr := none, yptr := none, optr := none }

namespace FamilyState

@[simp]
theorem change_self (state : FamilyState) (p : Nat) (update : Member → Member) :
    (state.change p update).procs p = update (state.procs p) := by
  simp [change]

@[simp]
theorem change_of_ne (state : FamilyState) {p other : Nat} (update : Member → Member)
    (apart : other ≠ p) : (state.change p update).procs other = state.procs other := by
  simp [change, apart]

theorem change_view {α : Type*} (view : Member → α) (state : FamilyState) (p : Nat)
    {update : Member → Member} (kept : view (update (state.procs p)) = view (state.procs p))
    (other : Nat) : view ((state.change p update).procs other) = view (state.procs other) := by
  by_cases same : other = p
  · subst same
    rw [change_self, kept]
  · rw [change_of_ne state update same]

/-- Nothing but the processes themselves differs. -/
def SameLists (state next : FamilyState) : Prop :=
  next = { state with procs := next.procs }

theorem sameLists_change (state : FamilyState) (p : Nat) (update : Member → Member) :
    state.SameLists (state.change p update) :=
  rfl

theorem SameLists.exists_procs {state next : FamilyState} (lists : state.SameLists next) :
    ∃ procs, next = { state with procs := procs } :=
  ⟨_, lists⟩

theorem SameLists.trans {first second third : FamilyState} (before : first.SameLists second)
    (after : second.SameLists third) : first.SameLists third := by
  unfold SameLists at *
  rw [after, before]

theorem setYounger_yptr (state : FamilyState) (elder younger : Option Nat) (other : Nat) :
    ((state.setYounger elder younger).procs other).yptr =
      if elder = some other then younger else (state.procs other).yptr := by
  cases elder with
  | none => simp [setYounger]
  | some elder =>
    by_cases same : other = elder
    · subst same
      simp [setYounger]
    · have apart : elder ≠ other := fun equal => same equal.symm
      simp [setYounger, same, apart]

theorem setYounger_view {α : Type*} (view : Member → α)
    (kept : ∀ member younger, view { member with yptr := younger } = view member)
    (state : FamilyState) (elder younger : Option Nat) (other : Nat) :
    view ((state.setYounger elder younger).procs other) = view (state.procs other) := by
  cases elder with
  | none => rfl
  | some elder =>
    have keptElder : view { state.procs elder with yptr := younger } =
        view (state.procs elder) := kept _ _
    by_cases same : other = elder
    · subst same
      rw [setYounger, change_self]
      exact keptElder
    · rw [setYounger, change_of_ne _ _ same]

theorem sameLists_setYounger (state : FamilyState) (elder younger : Option Nat) :
    state.SameLists (state.setYounger elder younger) := by
  cases elder with
  | none => rfl
  | some elder => rfl

section PushChild

variable (state : FamilyState) (parent p other : Nat)

theorem pushChild_cptr : ((state.pushChild parent p).procs other).cptr =
      if other = parent then some p else (state.procs other).cptr := by
  unfold pushChild
  by_cases same : other = parent
  · subst same
    simp
  · rw [change_of_ne _ _ same, setYounger_view cptr (fun _ _ => rfl), if_neg same]
    exact change_view cptr state p rfl other

theorem pushChild_optr : ((state.pushChild parent p).procs other).optr =
      if other = p then (state.procs parent).cptr else (state.procs other).optr := by
  unfold pushChild
  rw [change_view optr _ _ rfl, setYounger_view optr (fun _ _ => rfl)]
  by_cases same : other = p
  · subst same
    simp
  · rw [change_of_ne _ _ same, if_neg same]

theorem pushChild_yptr : ((state.pushChild parent p).procs other).yptr =
      if (state.procs parent).cptr = some other then some p
      else if other = p then none else (state.procs other).yptr := by
  unfold pushChild
  rw [change_view yptr _ _ rfl, setYounger_yptr]
  by_cases same : other = p
  · subst same
    simp
  · rw [change_of_ne _ _ same, if_neg same]

theorem pushChild_unlinked :
    ((state.pushChild parent p).procs other).unlinked = (state.procs other).unlinked := by
  unfold pushChild
  rw [change_view unlinked _ _ rfl, setYounger_view unlinked (fun _ _ => rfl),
    change_view unlinked _ _ rfl]

theorem sameLists_pushChild : state.SameLists (state.pushChild parent p) := by
  unfold pushChild
  exact ((sameLists_change _ _ _).trans (sameLists_setYounger _ _ _)).trans (sameLists_change _ _ _)

theorem setLinks_procs : (state.setLinks parent p).procs =
    (pushChild { state with procList := p :: state.procList } parent p).procs :=
  rfl

theorem setLinks_unlinked :
    ((state.setLinks parent p).procs other).unlinked = (state.procs other).unlinked :=
  pushChild_unlinked _ _ _ _

theorem setLinks_lists : ∃ procs, state.setLinks parent p = { state with
      procs := procs
      procList := p :: state.procList
      nrProcess := state.nrProcess + 1 } := by
  have lists := sameLists_pushChild { state with procList := p :: state.procList } parent p
  exact ⟨_, congrArg (fun next : FamilyState => { next with nrProcess := next.nrProcess + 1 })
    lists⟩

@[simp]
theorem hashProc_procs : (state.hashProc p).procs = state.procs :=
  rfl

end PushChild

section RemoveLinks

variable (state : FamilyState) (parent p other : Nat)

theorem bypass_yptr : ((state.bypass parent p).procs other).yptr = (state.procs other).yptr := by
  unfold bypass
  cases (state.procs p).yptr with
  | none | some => exact change_view yptr _ _ rfl other

theorem bypass_optr : ((state.bypass parent p).procs other).optr = if (state.procs p).yptr =
      some other then (state.procs p).optr else (state.procs other).optr := by
  unfold bypass
  cases (state.procs p).yptr with
  | none => exact change_view optr _ _ rfl other
  | some younger =>
    by_cases same : other = younger
    · subst same
      simp
    · have apart : younger ≠ other := fun equal => same equal.symm
      simp [same, apart]

theorem bypass_cptr : ((state.bypass parent p).procs other).cptr = if (state.procs p).yptr =
      none ∧ other = parent then (state.procs p).optr else (state.procs other).cptr := by
  unfold bypass
  cases (state.procs p).yptr with
  | none =>
    by_cases same : other = parent
    · subst same
      simp
    · simp [same]
  | some younger => exact change_view cptr _ _ rfl other

theorem bypass_unlinked :
    ((state.bypass parent p).procs other).unlinked = (state.procs other).unlinked := by
  unfold bypass
  cases (state.procs p).yptr with
  | none | some => exact change_view unlinked _ _ rfl other

theorem sameLists_bypass : state.SameLists (state.bypass parent p) := by
  unfold bypass
  cases (state.procs p).yptr with
  | none | some => rfl

theorem removeLinks_yptr : ((state.removeLinks parent p).procs other).yptr =
      if (state.procs p).optr = some other then (state.procs p).yptr
      else (state.procs other).yptr :=
  (bypass_yptr _ _ _ _).trans (setYounger_yptr _ _ _ _)

theorem removeLinks_optr : ((state.removeLinks parent p).procs other).optr =
      if (state.procs p).yptr = some other then (state.procs p).optr
      else (state.procs other).optr := by
  refine (bypass_optr _ _ _ _).trans ?_
  rw [setYounger_yptr, setYounger_view optr (fun _ _ => rfl), setYounger_view optr (fun _ _ => rfl)]
  simp

theorem removeLinks_cptr : ((state.removeLinks parent p).procs other).cptr =
      if (state.procs p).yptr = none ∧ other = parent then (state.procs p).optr
      else (state.procs other).cptr := by
  refine (bypass_cptr _ _ _ _).trans ?_
  rw [setYounger_yptr, setYounger_view optr (fun _ _ => rfl), setYounger_view cptr (fun _ _ => rfl)]
  simp

theorem removeLinks_unlinked :
    ((state.removeLinks parent p).procs other).unlinked = (state.procs other).unlinked :=
  (bypass_unlinked _ _ _ _).trans (setYounger_view unlinked (fun _ _ => rfl) _ _ _ _)

theorem removeLinks_lists : state.removeLinks parent p = { state with
      procs := (state.removeLinks parent p).procs
      procList := state.procList.erase p
      nrProcess := state.nrProcess - 1 } := by
  have younger := sameLists_setYounger { state with procList := state.procList.erase p }
    (state.procs p).optr (state.procs p).yptr
  have lists := younger.trans (sameLists_bypass _ parent p)
  exact congrArg (fun next : FamilyState => { next with nrProcess := next.nrProcess - 1 }) lists

end RemoveLinks

end FamilyState

end Family

end UcoreSmp
