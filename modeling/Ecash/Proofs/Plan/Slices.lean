import Ecash.Proofs.Plan
import Ecash.Proofs.Program.Frugal

/-!
# Groups share a block without overlap

The slices of one block belong to different groups (`owed_slices`), and what is
built for a group takes its indices from its own slice (`frugal_build`), one for
each output (`used_build`). So the outputs of a plan are made from the block that
was reserved for it (`frugal_plan`, `frugal_blanks`).
-/
namespace Ecash

open scoped List

/-- The reserved indices that `n` outputs of a policy are made from, given the
counter of the first one. -/
def Policy.owed (keyset : Json) (policy : Policy) (counter : Option Int) (n : Nat) : List Index :=
  match policy.pinned?, counter with
  | none, some start => indices keyset start n
  | _, _ => []

/-- The reserved indices that the outputs of a group are made from. -/
def OutputSpec.owed (keyset : Json) (s : OutputSpec) : List Index :=
  s.policy.owed keyset s.counter s.denominations.length

/-- A group that has not been assigned counters has only a counter of the caller's. -/
def OutputSpec.Unassigned (s : OutputSpec) : Prop := s.counter = s.policy.pinned?

/-- A reserved counter was reserved for parts that the group has. -/
def OutputSpec.Ready (s : OutputSpec) : Prop :=
  s.denominations = [] → s.counter = s.policy.pinned?

theorem Policy.owed_of_pinned {keyset : Json} {policy : Policy} {counter : Option Int} {n : Nat}
    (h : counter = policy.pinned?) : policy.owed keyset counter n = [] := by
  subst h
  unfold Policy.owed
  split
  · rename_i hnone hsome
    rw [hnone] at hsome
    cases hsome
  · rfl

namespace Plan

open Program

variable {keyset : Json} {k : Keyset} {s : OutputSpec} {specs : List OutputSpec}
  {own rest : List Index}

theorem configure_unassigned {settings : Settings.Output} {seeded : Bool} {r : Request}
    (h : configure settings seeded k r = .ok s) : s.Unassigned := by
  obtain ⟨data, hd, -, -, rfl⟩ | ⟨-, -, parts, fee, -, -, rfl⟩ := configure_inv h
  · unfold OutputSpec.Unassigned
    dsimp only
    rw [hd]
    rfl
  · rfl

/-! ## Slices -/

/-- A group waits if it has parts and a policy that takes counters as they come. -/
theorem waiting_spec (hs : s.Unassigned) (hw : s.countersNeeded ≠ 0) :
    s.policy.pinned? = none ∧ s.countersNeeded = s.denominations.length := by
  unfold OutputSpec.countersNeeded at hw ⊢
  split at hw
  · rename_i hc
    rw [Bool.and_eq_true, Option.isNone_iff_eq_none] at hc
    rw [if_pos (by simp [hc])]
    exact ⟨hs ▸ hc.2, rfl⟩
  · exact absurd rfl hw

theorem ready_slices (cursor : Int) (h : ∀ s ∈ specs, s.Unassigned) :
    ∀ s ∈ slices cursor specs, s.Ready := by
  induction specs generalizing cursor with
  | nil => simp [slices]
  | cons s rest ih =>
    rw [List.forall_mem_cons] at h
    unfold slices
    split
    · exact List.forall_mem_cons.mpr ⟨fun _ => h.1, ih _ h.2⟩
    · rename_i hw
      refine List.forall_mem_cons.mpr ⟨fun hnil => ?_, ih _ h.2⟩
      dsimp only at hnil
      rw [(waiting_spec h.1 hw).2, hnil] at hw
      exact absurd rfl hw

/-- The slices of a block, one after the other, are the block. -/
theorem owed_slices (cursor : Int) (h : ∀ s ∈ specs, s.Unassigned) :
    (slices cursor specs).flatMap (·.owed keyset) =
      indices keyset cursor (countersNeeded specs) := by
  induction specs generalizing cursor with
  | nil => rfl
  | cons s rest ih =>
    rw [List.forall_mem_cons] at h
    have hsum : countersNeeded (s :: rest) = s.countersNeeded + countersNeeded rest := rfl
    rw [hsum, indices_add, slices]
    split
    · rename_i hw
      rw [List.flatMap_cons, ih _ h.2, hw, OutputSpec.owed, Policy.owed_of_pinned h.1, indices]
      simp
    · rename_i hw
      obtain ⟨hp, hn⟩ := waiting_spec h.1 hw
      rw [List.flatMap_cons, ih _ h.2]
      congr 1
      unfold OutputSpec.owed Policy.owed
      dsimp only
      rw [hp, hn]

/-- Assigned counters come from the block that was reserved for them. -/
theorem frugal_assign (l : Option Listener) (h : ∀ s ∈ specs, s.Unassigned) :
    (assign keyset specs l).Frugal [] fun r own =>
      (∀ s ∈ r.1, s.Ready) ∧ r.1.flatMap (·.owed keyset) <+~ own := by
  unfold assign
  dsimp only
  split
  · refine frugal_pure ⟨fun s hs _ => h s hs, ?_⟩
    have hnil : specs.flatMap (·.owed keyset) = [] :=
      List.flatMap_eq_nil_iff.mpr fun s hs => Policy.owed_of_pinned (h s hs)
    rw [hnil]
  · have hblock : (Program.reserve keyset (countersNeeded specs)).Frugal [] fun block own =>
        own = indices keyset block.start (countersNeeded specs) := by
      refine .ask (fun r => Exchange.granted ⟨_, r⟩) (fun r => List.Subperm.refl _) fun r => ?_
      cases r with
      | ok block => exact .ok rfl
      | error e => exact .error
    refine hblock.bind fun block own hown => ?_
    refine frugal_bind_of_idle (Only.command trivial) fun _ => ?_
    refine frugal_bind_of_idle ((only_announce ..).mono fun _ => Command.Announcing.idle) fun _ => ?_
    refine frugal_pure ⟨ready_slices _ h, ?_⟩
    rw [owed_slices _ h, hown]

/-! ## Outputs -/

variable (S : Suite)

theorem frugal_deriveAll {start : Int} {parts : List Int}
    (h : indices keyset start parts.length ++ rest <+~ own) :
    (deriveAll S keyset .reserved start parts).Frugal own fun _ own' => rest <+~ own' := by
  induction parts generalizing start own with
  | nil => exact frugal_pure h
  | cons amount parts ih =>
    have hderived : (derived S keyset .reserved amount start).Frugal own fun _ own' =>
        own' = indices keyset (start + 1) parts.length ++ rest := by
      refine .ask (fun _ => indices keyset (start + 1) parts.length ++ rest) (fun r => ?_) fun r => ?_
      · rw [granted_derive, List.append_nil]
        exact h
      · cases r with
        | ok r => exact frugal_of_idle (Only.lift _) fun _ => rfl
        | error e => exact .error
    refine hderived.bind fun o own' hown => ?_
    refine (ih (hown ▸ List.Subperm.refl _)).bind fun os own' hrest => ?_
    exact frugal_pure hrest

/-- Outputs of a policy are made from the reserved indices that are meant for them. -/
theorem frugal_outputs (seeded : Bool) {policy : Policy} {counter : Option Int} {parts : List Int}
    (h : policy.owed k.id counter parts.length ++ rest <+~ own) :
    (outputs S seeded k policy counter parts).Frugal own fun _ own' => rest <+~ own' := by
  have hrest : rest <+~ own := (List.sublist_append_right ..).subperm.trans h
  cases hd : policy.isDeterministic with
  | false => exact frugal_of_idle ((only_drawn S seeded k counter parts hd).mono
      fun _ => Command.Drawing.idle) fun _ => hrest
  | true =>
    cases policy with
    | deterministic n ds =>
      unfold outputs
      dsimp only
      cases counter with
      | none => exact frugal_fail _
      | some start =>
        dsimp only
        split
        · cases hp : (Policy.deterministic n ds).pinned? with
          | none =>
            unfold Policy.owed at h
            rw [hp] at h
            exact frugal_deriveAll S h
          | some c =>
            have hpinned : (deriveAll S k.id .pinned start parts).Only Command.Idle :=
              (only_deriveAll ..).mono fun _ hc => hc.idle (by decide)
            exact frugal_of_idle hpinned fun _ => hrest
        · exact frugal_fail _
    | random _ | locked _ _ | factory _ _ | custom _ => cases hd

/-- A group is built from the reserved indices that are meant for it. -/
theorem frugal_build (seeded : Bool) (hs : s.Ready) (h : s.owed k.id ++ rest <+~ own) :
    (build S seeded k s).Frugal own fun _ own' => rest <+~ own' := by
  have hrest : rest <+~ own := (List.sublist_append_right ..).subperm.trans h
  have hparts (parts : List Int) (h : s.policy.owed k.id s.counter parts.length ++ rest <+~ own) :
      (if parts.isEmpty then pure [] else outputs S seeded k s.policy s.counter parts :
        Program _).Frugal own fun _ own' => rest <+~ own' := by
    split
    · exact frugal_pure hrest
    · exact frugal_outputs S seeded h
  unfold build
  split
  · exact frugal_bind_of_idle (Only.command trivial) fun _ => frugal_pure hrest
  · split
    · exact frugal_pure hrest
    · dsimp only
      split
      · rename_i hnil
        refine frugal_bind_of_lift fun parts _ => hparts parts ?_
        rw [Policy.owed_of_pinned (hs (List.isEmpty_iff.mp hnil))]
        exact hrest
      · refine frugal_bind_of_lift fun _ _ => ?_
        rw [pure_bind]
        exact hparts _ h

theorem used_deriveAll {start : Int} {parts : List Int} {os : List Output} {tr : List Exchange}
    (h : (deriveAll S keyset .reserved start parts).Yields tr (.ok os)) :
    used tr = indices keyset start os.length := by
  induction parts generalizing start os tr with
  | nil =>
    obtain ⟨rfl, rfl⟩ := yields_pure_ok.mp h
    rfl
  | cons amount parts ih =>
    obtain ⟨o, t₁, t₂, rfl, ho, h⟩ := yields_bind_ok.mp h
    obtain ⟨os', hos, rfl⟩ := yields_bind_pure_ok.mp h
    obtain ⟨r, t₁, t₃, rfl, hr, ho⟩ := yields_bind_ok.mp ho
    obtain ⟨rfl, -⟩ := yields_lift.mp ho
    obtain ⟨a, t₄, rfl, ha⟩ := yields_ask.mp hr
    obtain ⟨rfl, -⟩ := yields_done.mp ha
    rw [List.append_nil, used_append, ih hos]
    rfl

theorem used_outputs {seeded : Bool} {policy : Policy} {counter : Option Int} {parts : List Int}
    {os : List Output} {tr : List Exchange} (hd : policy.isDeterministic = true)
    (hp : policy.pinned? = none)
    (h : (outputs S seeded k policy counter parts).Yields tr (.ok os)) :
    used tr = indices k.id (counter.getD 0) os.length := by
  cases policy with
  | deterministic n ds =>
    unfold outputs at h
    dsimp only at h
    split at h
    · exact absurd h not_yields_fail_ok
    · split at h
      · rw [hp] at h
        exact used_deriveAll S h
      · exact absurd h not_yields_fail_ok
  | random _ | locked _ _ | factory _ _ | custom _ => cases hd

/-- The outputs of a group that takes counters as they come are made from
consecutive reserved indices, from the counter of the group on. -/
theorem used_build {seeded : Bool} {os : List Output} {tr : List Exchange}
    (hd : s.policy.isDeterministic = true) (hp : s.policy.pinned? = none)
    (h : (build S seeded k s).Yields tr (.ok os)) :
    used tr = indices k.id (s.counter.getD 0) os.length := by
  have hparts (parts : List Int) {t : List Exchange}
      (h : (if parts.isEmpty then pure [] else outputs S seeded k s.policy s.counter parts :
        Program _).Yields t (.ok os)) : used t = indices k.id (s.counter.getD 0) os.length := by
    split at h
    · obtain ⟨rfl, rfl⟩ := yields_pure_ok.mp h
      rfl
    · exact used_outputs S hd hp h
  unfold build at h
  split at h
  · obtain ⟨_, t₁, t₂, rfl, hw, h⟩ := yields_bind_ok.mp h
    obtain ⟨rfl, rfl⟩ := yields_pure_ok.mp h
    rw [yields_command_ok.mp hw]
    rfl
  · split at h
    · rename_i hpolicy
      rw [hpolicy] at hd
      cases hd
    · dsimp only at h
      split at h
      · obtain ⟨parts, -, h⟩ := yields_lift_bind_ok.mp h
        exact hparts parts h
      · obtain ⟨_, -, h⟩ := yields_lift_bind_ok.mp h
        rw [pure_bind] at h
        exact hparts _ h

/-- Groups that share what is held are built one after the other. -/
theorem frugal_mapM_build (seeded : Bool) (hs : ∀ s ∈ specs, s.Ready)
    (h : specs.flatMap (·.owed k.id) <+~ own) :
    (specs.mapM (build S seeded k)).Frugal own fun _ _ => True := by
  induction specs generalizing own with
  | nil => exact frugal_pure trivial
  | cons s specs ih =>
    rw [List.forall_mem_cons] at hs
    rw [List.flatMap_cons] at h
    rw [List.mapM_cons]
    refine (frugal_build S seeded hs.1 h).bind fun os own' hown => ?_
    exact (ih hs.2 hown).bind fun _ _ _ => frugal_pure trivial

theorem frugal_finish (seeded : Bool) (l : Option Listener) (hs : s.Unassigned) :
    (finish S seeded k s l).Frugal [] fun _ _ => True := by
  have hall : ∀ s' ∈ [s], s'.Unassigned := by simpa using hs
  refine (frugal_assign l hall).bind fun r own hown => ?_
  exact (frugal_mapM_build S seeded hown.1 hown.2).bind fun _ _ _ => frugal_pure trivial

theorem frugal_plan (settings : Settings.Output) (seeded : Bool) (k : Keyset) (r : Request)
    (l : Option Listener) : (plan S settings seeded k r l).Frugal [] fun _ _ => True := by
  unfold plan
  split
  · exact frugal_bind_of_idle (Only.command trivial) fun _ => frugal_pure trivial
  · exact frugal_bind_of_lift fun s hs => frugal_finish S seeded l (configure_unassigned hs)

theorem frugal_blanks (seeded : Bool) (k : Keyset) (policy : Policy) (count : Int)
    (l : Option Listener) : (blanks S seeded k policy count l).Frugal [] fun _ _ => True := by
  unfold blanks
  split
  · exact frugal_fail _
  · split
    · exact frugal_pure trivial
    · exact frugal_bind_of_lift fun _ _ => frugal_finish S seeded l rfl

end Plan

end Ecash
