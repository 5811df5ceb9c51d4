import Ecash.Proofs.Plan.Buildable
import Ecash.Proofs.Plan.Slices
import Ecash.Proofs.Program.Announcement
import Ecash.World

/-!
# One block for all groups

The groups of an operation that wait for counters get them from one block. The slice of a
group starts where the slices of those before it end (`slices_getElem?`), so the slices make
up the block (`flatMap_share`), and each is what building its group asks the seed for
(`consumes_indices`). The block is announced once (`assign_one_block`).
-/
namespace Ecash

/-- The index of the seed that a command asks for. -/
def Command.index? : Command → Option Index
  | .derive keyset counter _ => some (keyset, counter)
  | _ => none

/-- The indices of the seed that have been asked for, in order. -/
def indicesAsked (tr : List Exchange) : List Index := tr.filterMap (·.command.index?)

theorem indicesAsked_append (t₁ t₂ : List Exchange) :
    indicesAsked (t₁ ++ t₂) = indicesAsked t₁ ++ indicesAsked t₂ := List.filterMap_append

/-- A block that is granted has as many indices as were asked for. -/
def Exchange.GrantedInFull : Exchange → Prop
  | ⟨.reserve _ n, .ok block⟩ => block.count = n
  | _ => True

instance : DecidablePred Exchange.GrantedInFull
  | ⟨.reserve _ n, .ok block⟩ => inferInstanceAs (Decidable (block.count = n))
  | ⟨.reserve .., .error _⟩ | ⟨.shuffle _, _⟩ | ⟨.now, _⟩ | ⟨.freshSecret, _⟩ | ⟨.freshFactor, _⟩
  | ⟨.derive .., _⟩ | ⟨.produce .., _⟩ | ⟨.advance .., _⟩ | ⟨.listeners _, _⟩ | ⟨.tell .., _⟩
  | ⟨.warn _, _⟩ | ⟨.record _, _⟩ | ⟨.call _, _⟩ => isTrue trivial

/-- These are the indices that the group is built from, one for each of its parts: whatever
is answered, building it asks for them and for no others, in their order, and if it ends
well for all of them. -/
def OutputSpec.Consumes (k : Keyset) (s : OutputSpec) (own : List Index) : Prop :=
  own.length = s.denominations.length ∧ ∀ S seeded tr r, (Plan.build S seeded k s).Yields tr r →
    indicesAsked tr <+: own ∧ ∀ os, r = .ok os → indicesAsked tr = own

namespace Plan

open Program

variable {S : Suite} {seeded : Bool} {k : Keyset} {keyset : Json} {s : OutputSpec}
  {specs specs' : List OutputSpec} {own : Option Listener} {tr : List Exchange}

/-! ## Indices -/

theorem length_indices (keyset : Json) (start : Int) (n : Nat) :
    (indices keyset start n).length = n := by
  induction n generalizing start with
  | zero => rfl
  | succ n ih => rw [indices, List.length_cons, ih]

theorem indicesAsked_derived {use : IndexUse} {amount start : Int} {r : Outcome Output}
    (h : (derived S keyset use amount start).Yields tr r) : indicesAsked tr = [(keyset, start)] := by
  obtain ⟨(answer : Outcome (Bytes × Nat)), t, rfl, hrest⟩ := yields_ask.mp h
  cases answer with
  | error e =>
    obtain ⟨rfl, -⟩ := yields_done.mp hrest
    rfl
  | ok made =>
    obtain ⟨rfl, -⟩ := yields_lift.mp hrest
    rfl

/-- Outputs ask for consecutive indices, up to the first that fails. -/
theorem indicesAsked_deriveAll {use : IndexUse} {start : Int} {parts : List Int}
    {r : Outcome (List Output)} (h : (deriveAll S keyset use start parts).Yields tr r) :
    indicesAsked tr <+: indices keyset start parts.length ∧
      ∀ os, r = .ok os → indicesAsked tr = indices keyset start parts.length := by
  induction parts generalizing start tr r with
  | nil =>
    obtain ⟨rfl, -⟩ := yields_done.mp h
    exact ⟨List.nil_prefix, fun _ _ => rfl⟩
  | cons amount rest ih =>
    rw [List.length_cons, indices]
    obtain ⟨e, ho, rfl⟩ | ⟨o, t₁, t₂, rfl, ho, hrest⟩ := yields_bind.mp h
    · rw [indicesAsked_derived ho]
      refine ⟨List.prefix_append [_] _, fun os hok => ?_⟩
      cases hok
    · obtain ⟨r', hos, rfl⟩ := yields_bind_pure.mp hrest
      obtain ⟨hbegun, hall⟩ := ih hos
      rw [indicesAsked_append, indicesAsked_derived ho]
      refine ⟨(List.prefix_cons_inj _).mpr hbegun, fun os hok => ?_⟩
      cases r' with
      | ok os' => rw [hall os' rfl, List.singleton_append]
      | error e => cases hok

/-! ## Slices -/

/-- Only deterministic groups wait, for a counter for each part. -/
theorem waits (hw : s.countersNeeded ≠ 0) :
    s.policy.isDeterministic = true ∧ s.countersNeeded = s.denominations.length := by
  unfold OutputSpec.countersNeeded at hw ⊢
  split at hw
  · rename_i hc
    rw [if_pos hc]
    exact ⟨(Bool.and_eq_true _ _ ▸ hc).1, rfl⟩
  · exact absurd rfl hw

/-- A deterministic group with a counter is built from the indices from there on. -/
theorem consumes_indices {start : Int} (hd : s.policy.isDeterministic = true)
    (hc : s.counter = some start) (ha : 0 ≤ s.amount) (hsum : s.denominations.sum = s.amount) :
    s.Consumes k (indices k.id start s.denominations.length) := by
  have hp : ∀ data, s.policy ≠ .custom data := by
    intro data hdata
    rw [hdata] at hd
    cases hd
  refine ⟨length_indices .., fun S seeded tr r h => ?_⟩
  rw [build_of_sum ha hp hsum] at h
  split at h
  · rename_i hnil
    obtain ⟨rfl, -⟩ := yields_done.mp h
    rw [List.isEmpty_iff.mp hnil]
    exact ⟨List.nil_prefix, fun _ _ => rfl⟩
  · cases hpolicy : s.policy with
    | deterministic n ds =>
      rw [hpolicy, hc] at h
      unfold outputs at h
      dsimp only at h
      split at h
      · exact indicesAsked_deriveAll h
      · obtain ⟨rfl, rfl⟩ := yields_done.mp h
        exact ⟨List.nil_prefix, nofun⟩
    | random _ | locked _ _ | factory _ _ | custom _ =>
      rw [hpolicy] at hd
      cases hd

theorem countersNeeded_cons (s : OutputSpec) (specs : List OutputSpec) :
    countersNeeded (s :: specs) = s.countersNeeded + countersNeeded specs := rfl

theorem countersNeeded_append (specs specs' : List OutputSpec) :
    countersNeeded (specs ++ specs') = countersNeeded specs + countersNeeded specs' := by
  unfold countersNeeded
  rw [List.map_append, List.sum_append]

/-- A waiting group gets the counters after those of the groups before it. -/
theorem slices_getElem? (cursor : Int) (specs : List OutputSpec) (i : Nat) :
    (slices cursor specs)[i]? = specs[i]?.map fun s => if s.countersNeeded = 0 then s
      else { s with counter := some (cursor + countersNeeded (specs.take i)) } := by
  induction specs generalizing cursor i with
  | nil => simp [slices]
  | cons s rest ih =>
    unfold slices
    cases i with
    | zero =>
      split
      · rename_i hnone
        simp [hnone]
      · rename_i hw
        simp [hw, countersNeeded]
    | succ i =>
      rw [List.take_succ_cons, countersNeeded_cons]
      split
      · rename_i hnone
        rw [hnone, Nat.zero_add]
        exact ih cursor i
      · rw [List.getElem?_cons_succ, List.getElem?_cons_succ, ih, Nat.cast_add, Int.add_assoc]

theorem length_slices (cursor : Int) (specs : List OutputSpec) :
    (slices cursor specs).length = specs.length := (slices_spec cursor specs).length_eq.symm

/-- The indices of a block, from `start` on, that belong to the group at place `i`. -/
def share (keyset : Json) (start : Int) (specs : List OutputSpec) (i : Nat) : List Index :=
  indices keyset (start + countersNeeded (specs.take i)) (countersNeeded specs[i]?.toList)

/-- The shares of the first `n` groups are the beginning of the block. -/
theorem flatMap_share (keyset : Json) (start : Int) (specs : List OutputSpec) (n : Nat) :
    (List.range n).flatMap (share keyset start specs) =
      indices keyset start (countersNeeded (specs.take n)) := by
  induction n with
  | zero => rfl
  | succ n ih =>
    rw [List.range_succ, List.flatMap_append, ih, List.flatMap_singleton, List.take_add_one,
      countersNeeded_append, indices_add, share]

/-! ## One block -/

/-- The groups and a block, before and after: the groups stay in order, those that wait for
nothing as they are. Each of the others is given its first counter, and consumes its share
of the block. The shares do not overlap, and together are the block. -/
structure Sliced (k : Keyset) (block : CounterBlock) (specs specs' : List OutputSpec) : Prop where
  length : specs'.length = specs.length
  rest : ∀ (i : Nat) s, specs[i]? = some s → s.countersNeeded = 0 → specs'[i]? = some s
  counter : ∀ (i : Nat) s, specs[i]? = some s → s.countersNeeded ≠ 0 →
    specs'[i]? = some { s with counter := some (block.start + countersNeeded (specs.take i)) }
  consumes : ∀ (i : Nat) s s', specs[i]? = some s → s.countersNeeded ≠ 0 → specs'[i]? = some s' →
    s'.Consumes k (share k.id block.start specs i)
  apart : ((List.range specs.length).flatMap (share k.id block.start specs)).Pairwise Apart
  whole : (List.range specs.length).flatMap (share k.id block.start specs) =
    indices k.id block.start block.count.toNat

theorem sliced {block : CounterBlock}
    (hs : ∀ s ∈ specs, s.countersNeeded ≠ 0 → 0 ≤ s.amount ∧ s.denominations.sum = s.amount)
    (hblock : block.count = countersNeeded specs) :
    Sliced k block specs (slices block.start specs) := by
  have hcounter (i : Nat) (s : OutputSpec) (hi : specs[i]? = some s) (hw : s.countersNeeded ≠ 0) :
      (slices block.start specs)[i]? =
        some { s with counter := some (block.start + countersNeeded (specs.take i)) } := by
    rw [slices_getElem?, hi, Option.map_some, if_neg hw]
  have hwhole := flatMap_share k.id block.start specs specs.length
  rw [List.take_length] at hwhole
  refine ⟨length_slices .., fun i s hi hnone => ?_, hcounter, fun i s s' hi hw hs' => ?_, ?_, ?_⟩
  · rw [slices_getElem?, hi, Option.map_some, if_pos hnone]
  · obtain rfl := Option.some.inj ((hcounter i s hi hw).symm.trans hs')
    obtain ⟨ha, hsum⟩ := hs s (List.mem_of_getElem? hi) hw
    obtain ⟨hd, hn⟩ := waits hw
    have hshare : share k.id block.start specs i =
        indices k.id (block.start + countersNeeded (specs.take i)) s.denominations.length := by
      rw [share, hi, ← hn]
      rfl
    rw [hshare]
    exact consumes_indices hd rfl ha hsum
  · rw [hwhole]
    exact indices_apart ..
  · rw [hwhole, hblock, Int.toNat_natCast]

/-- What becomes of the groups: none waits, and nothing happens; or the source refuses; or
it grants one block, which is recorded, announced, and cut into slices. -/
theorem assign_cases {r : Outcome (List OutputSpec × Option Reservation)}
    (h : (assign keyset specs own).Yields tr r) :
    countersNeeded specs = 0 ∧ tr = [] ∧ r = .ok (specs, none) ∨
    countersNeeded specs ≠ 0 ∧
      ((∃ e, tr = [⟨.reserve keyset (countersNeeded specs), .error e⟩] ∧ r = .error e) ∨
      ∃ block news, tr = ⟨.reserve keyset (countersNeeded specs), .ok block⟩ ::
          ⟨.record (.countersReserved keyset block.count), ()⟩ :: news ∧
        Announced .countersReserved (.reserved ⟨keyset, block⟩) own news ∧
        r = .ok (slices block.start specs, some ⟨keyset, block⟩)) := by
  unfold assign at h
  dsimp only at h
  split at h
  · rename_i hnone
    obtain ⟨rfl, rfl⟩ := yields_done.mp h
    exact .inl ⟨hnone, rfl, rfl⟩
  · rename_i hsome
    refine .inr ⟨hsome, ?_⟩
    obtain ⟨(answer : Outcome CounterBlock), t, rfl, hrest⟩ := yields_ask.mp h
    cases answer with
    | error e =>
      obtain ⟨rfl, rfl⟩ := yields_done.mp hrest
      exact .inl ⟨e, rfl, rfl⟩
    | ok block =>
      obtain ⟨_, news, rfl, hnews⟩ := yields_ask.mp hrest
      have hnews : (announce .countersReserved (.reserved ⟨keyset, block⟩) own >>= fun _ =>
        pure (slices block.start specs, some ⟨keyset, block⟩)).Yields news r := hnews
      obtain ⟨r', hannounce, rfl⟩ := yields_bind_pure.mp hnews
      obtain ⟨rfl, -⟩ := yields_announce hannounce
      exact .inr ⟨block, news, rfl, announced hannounce, rfl⟩

/-- For all groups, of which those that wait for counters have parts that add up, every
source that grants what it is asked for, and all listeners: if no group waits, nothing
happens. Otherwise one block is asked for, of the size that the waiting groups need
together. If the source refuses, that is all; if not, the block is counted once, the listener
of the call and every subscriber are told of it once, and it is shared out to the waiting
groups. -/
theorem assign_one_block (own : Option Listener) {r : Outcome (List OutputSpec × Option Reservation)}
    (hs : ∀ s ∈ specs, s.countersNeeded ≠ 0 → 0 ≤ s.amount ∧ s.denominations.sum = s.amount)
    (hfull : ∀ x ∈ tr, x.GrantedInFull) (h : (assign k.id specs own).Yields tr r) :
    countersNeeded specs = 0 ∧ tr = [] ∧ r = .ok (specs, none) ∨
    countersNeeded specs ≠ 0 ∧
      ((∃ e, tr = [⟨.reserve k.id (countersNeeded specs), .error e⟩] ∧ r = .error e) ∨
      ∃ block news specs', tr = ⟨.reserve k.id (countersNeeded specs), .ok block⟩ ::
          ⟨.record (.countersReserved k.id block.count), ()⟩ :: news ∧
        Announced .countersReserved (.reserved ⟨k.id, block⟩) own news ∧
        r = .ok (specs', some ⟨k.id, block⟩) ∧ Sliced k block specs specs') := by
  refine (assign_cases h).imp_right fun ⟨hsome, hrest⟩ => ⟨hsome, hrest.imp_right ?_⟩
  rintro ⟨block, news, rfl, hnews, rfl⟩
  have hcount : block.count = countersNeeded specs := hfull _ List.mem_cons_self
  exact ⟨block, news, _, rfl, hnews, rfl, sliced hs hcount⟩

/-- Groups of all kinds: drawn, waiting, with a counter of the caller's, without parts, and
waiting again. -/
def mixedGroups : List OutputSpec :=
  [⟨1, .random [], [1], none⟩, ⟨1, .deterministic 0 [1], [1], none⟩,
    ⟨2, .deterministic 7 [2], [2], some 7⟩, ⟨0, .deterministic 0 [], [], none⟩,
    ⟨3, .deterministic 0 [2, 1], [2, 1], none⟩]

/-- The counters up to three have been used. The listener of the call fails, another one is
subscribed. -/
def noisyWorld : World :=
  { World.fresh none (.fresh []) with
    cursors := [(.str "00", 4)]
    registry := ⟨[1], []⟩
    scribes := [⟨"own", true⟩, ⟨"subscribed", false⟩] }

/-- The second group gets the counter four, the last one five and six. -/
theorem assign_one_block_mixed :
    let k : Keyset := ⟨.str "00", .str "sat", .bool true, 0, .null, []⟩
    let p := assign k.id mixedGroups (some 0)
    let tr := p.history (World.handle .secp256k1) noisyWorld
    let notice : Notice := .reserved ⟨.str "00", ⟨4, 3⟩⟩
    told tr = [(0, .countersReserved, notice), (1, .countersReserved, notice)] ∧
      ∃ specs', (p.run (World.handle .secp256k1) noisyWorld).1 = .ok (specs', some ⟨.str "00", ⟨4, 3⟩⟩) ∧
        specs'.map (·.counter) = [none, some 4, some 7, none, some 5] ∧
        Sliced k ⟨4, 3⟩ mixedGroups specs' := by
  intro k p tr notice
  have hs : ∀ s ∈ mixedGroups, s.countersNeeded ≠ 0 → 0 ≤ s.amount ∧ s.denominations.sum = s.amount := by
    decide +kernel
  have hfull : ∀ x ∈ tr, x.GrantedInFull := by decide +kernel
  have hneeded : countersNeeded mixedGroups ≠ 0 := by decide +kernel
  have hrun : (p.run (World.handle .secp256k1) noisyWorld).1 =
      .ok (slices 4 mixedGroups, some ⟨.str "00", ⟨4, 3⟩⟩) := by decide +kernel
  have hyields := yields_run (World.handle .secp256k1) p noisyWorld
  obtain ⟨hnone, -⟩ | ⟨-, ⟨e, -, he⟩ | ⟨block, news, specs', -, -, hr, hsliced⟩⟩ :=
    assign_one_block (k := k) (some 0) hs hfull hyields
  · exact absurd hnone hneeded
  · rw [hrun] at he
    cases he
  · rw [hrun] at hr
    cases hr
    exact ⟨by decide +kernel, _, hrun, by decide +kernel, hsliced⟩

end Plan

end Ecash
