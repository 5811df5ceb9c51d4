import Ecash.Output
import Ecash.Proofs.Outcome
import Mathlib.Algebra.Module.NatInt
import Mathlib.Data.ZMod.Basic
import Mathlib.Tactic.Ring

/-!
# Signatures without their blinding

Where the points of a suite are those of an abelian group, a signature on a blinded
secret, unblinded, is the signature on the secret itself, whatever the blinding
factor (`unblind_signed_blind`). So an output made from a secret turns a mint's
signature into a proof that carries the mint's key times the secret's point
(`Output.Blinded.unblinded`). The group is a parameter: of the curve only its laws
are used.
-/
namespace Ecash

/-- The points that can be read or computed are those of an abelian group, in which
the order of the suite annihilates everything. -/
structure Suite.Group (S : Suite) (G : Type) [AddCommGroup G] where
  point : G → S.Point
  generator : G
  base : S.base = point generator
  add : ∀ a b, S.add (point a) (point b) = point (a + b)
  mul : ∀ (k : Int) (a : G), S.mul k (point a) = point (k • a)
  order : ∀ a : G, S.order • a = 0
  decode : ∀ bs q, S.decode bs = .ok q → ∃ a, q = point a

variable {S : Suite} {G : Type} [AddCommGroup G]

namespace Suite

/-- The hash of a message is a point that was read. -/
theorem Group.hashToCurve (C : S.Group G) {message : Bytes} {y : S.Point}
    (h : S.hashToCurve message = .ok y) : ∃ a, y = C.point a := by
  have hfirst {seed : Bytes} {fuel counter : Nat} (h : S.firstPoint seed fuel counter = .ok y) :
      ∃ a, y = C.point a := by
    induction fuel generalizing counter with
    | zero => cases h
    | succ fuel ih =>
      unfold firstPoint at h
      split at h
      · rename_i q hq
        cases h
        exact C.decode _ _ hq
      · exact ih h
  exact hfirst h

theorem Group.blind (C : S.Group G) {secret : Bytes} {r : Int} {b : S.Point}
    (h : S.blind secret r = .ok b) :
    ∃ a, S.hashToCurve secret = .ok (C.point a) ∧ b = C.point (a + r • C.generator) := by
  unfold Suite.blind at h
  cases hy : S.hashToCurve secret with
  | error e => rw [hy] at h; cases h
  | ok y =>
    rw [hy] at h
    cases h
    obtain ⟨a, rfl⟩ := C.hashToCurve hy
    refine ⟨a, rfl, ?_⟩
    dsimp only
    rw [C.base, C.mul, C.add]

/-- The multiple by which blinding is undone is that of the factor, taken off. -/
theorem sub_emod_smul {n : Nat} {a : G} (h : n • a = 0) (r : Int) :
    ((n : Int) - r % n) • a = -(r • a) := by
  have hn (m : Int) : ((n : Int) * m) • a = 0 := by
    rw [mul_comm, mul_smul, natCast_zsmul, h, smul_zero]
  have hr : (n : Int) - r % n = -r + n * (r / n + 1) := by
    rw [Int.emod_def]
    ring
  rw [hr, add_smul, hn, add_zero, neg_smul]

/-- The mint's key drops out of a signature on a blinded secret, and what is left is
the key times the secret's point. -/
theorem unblind_signed_blind (C : S.Group G) {secret : Bytes} {r : Int} {y b : S.Point}
    (hy : S.hashToCurve secret = .ok y) (hb : S.blind secret r = .ok b) (k : Int) :
    S.unblind (S.mul k b) r (S.mul k S.base) = S.mul k y := by
  obtain ⟨a, ha, rfl⟩ := C.blind hb
  cases hy.symm.trans ha
  unfold unblind
  simp only [C.base, C.mul, C.add]
  congr 1
  calc k • (a + r • C.generator) + ((S.order : Int) - r % S.order) • k • C.generator
      = k • a + r • k • C.generator + ((S.order : Int) - r % S.order) • k • C.generator := by
        rw [smul_add, smul_comm k r]
    _ = k • a + r • k • C.generator + -(r • k • C.generator) := by
        rw [sub_emod_smul (C.order _)]
    _ = k • a := by rw [add_neg_cancel_right]

end Suite

/-! ## Keys and signatures -/

/-- The keys of the keyset are the multiples `scalar a` of the base point. -/
def Keyset.KeyedBy (S : Suite) (scalar : Int → Int) (k : Keyset) : Prop :=
  ∀ a key, k.key? a = some key → key ≠ .null →
    Output.readPoint S key = .ok (S.mul (scalar a) S.base)

/-- The signature on the blinded point that is written as `b` is its multiple by the
scalar for the amount signed. -/
def Suite.Group.Signed (C : S.Group G) (scalar : Int → Int) (b : Json) (s : BlindedSignature) : Prop :=
  ∀ a, (S.pointHex (C.point a)).map Json.str = .ok b →
    Output.readPoint S s.c = .ok (S.mul (scalar s.amount) (C.point a))

namespace Output

/-- The output was made from its secret and blinding factor. -/
def Blinded (S : Suite) (o : Output) : Prop :=
  ofSecret S o.message.amount o.message.keyset o.secret o.factor = .ok o

instance (S : Suite) (o : Output) : Decidable (o.Blinded S) :=
  inferInstanceAs (Decidable (ofSecret S _ _ _ _ = _))

theorem blinded_of_secret {amount : Int} {keyset : Json} {secret : Bytes} {factor : Int} {o : Output}
    (h : ofSecret S amount keyset secret factor = .ok o) : o.Blinded S := by
  obtain ⟨_, -, h'⟩ := Outcome.bind_ok_iff.mp h
  obtain ⟨_, -, h'⟩ := Outcome.bind_ok_iff.mp h'
  cases h'
  exact h

/-- The message of an output is its secret's blinded point. -/
theorem Blinded.blind {o : Output} (h : o.Blinded S) :
    ∃ b, S.blind o.secret o.factor = .ok b ∧ (S.pointHex b).map Json.str = .ok o.message.b := by
  obtain ⟨b, hb, h⟩ := Outcome.bind_ok_iff.mp h
  obtain ⟨hex, hx, h⟩ := Outcome.bind_ok_iff.mp h
  refine ⟨b, hb, ?_⟩
  have hm : .str hex = o.message.b := congrArg (·.message.b) (Except.ok.inj h)
  rw [hx, ← hm]
  rfl

/-- What a proof takes from its output, the signature and the key for the amount. -/
theorem toProof_inv {o : Output} {s : BlindedSignature} {k : Keyset} {q : Proof}
    (h : o.toProof S s k = .ok q) : ∃ key signed point text hex,
      k.key? s.amount = some key ∧ key ≠ .null ∧ readPoint S s.c = .ok signed ∧
      readPoint S key = .ok point ∧ Bytes.text? o.secret = some text ∧
      S.pointHex (S.unblind signed o.factor point) = .ok hex ∧
      q.keyset = s.keyset ∧ q.amount = s.amount ∧ q.secret = .str text ∧ q.c = .str hex := by
  unfold toProof at h
  split at h
  · exact absurd h Outcome.refuse_ne_ok
  rename_i key hkey
  obtain ⟨hkey, hnull⟩ := Option.filter_eq_some_iff.mp hkey
  obtain ⟨signed, hs, h⟩ := Outcome.bind_ok_iff.mp h
  obtain ⟨point, hp, h⟩ := Outcome.bind_ok_iff.mp h
  refine ⟨key, signed, point, ?_⟩
  have hrest : ∃ text hex, Bytes.text? o.secret = some text ∧
      S.pointHex (S.unblind signed o.factor point) = .ok hex ∧ q.keyset = s.keyset ∧
      q.amount = s.amount ∧ q.secret = .str text ∧ q.c = .str hex := by
    dsimp only at h
    split at h
    -- evidence, if there is any, takes the blinding factor in writing
    on_goal 2 => obtain ⟨_, -, h⟩ := Outcome.bind_ok_iff.mp h
    all_goals
      obtain ⟨_, -, h⟩ := Outcome.bind_ok_iff.mp h
      split at h
      · cases h
      · rename_i text ht
        obtain ⟨hex, hx, h⟩ := Outcome.bind_ok_iff.mp h
        cases h
        exact ⟨text, hex, ht, hx, rfl, rfl, rfl, rfl⟩
  obtain ⟨text, hex, hrest⟩ := hrest
  exact ⟨text, hex, hkey, by simpa using hnull, hs, hp, hrest⟩

theorem amount_of_toProof {o : Output} {s : BlindedSignature} {k : Keyset} {q : Proof}
    (h : o.toProof S s k = .ok q) : q.amount = s.amount := by
  obtain ⟨_, _, _, _, _, -, -, -, -, -, -, -, hamount, -⟩ := toProof_inv h
  exact hamount

/-- The output became the proof by a signature that came back for its message. -/
def Redeemed (S : Suite) (k : Keyset) (signed : List (BlindedMessage × BlindedSignature)) (o : Output)
    (q : Proof) : Prop :=
  ∃ s, (o.message, s) ∈ signed ∧ o.toProof S s k = .ok q

/-- The proof has the secret of its output, amount and keyset id of its signature, and
shows the scalar for that amount times the secret's point. -/
structure Unblinded (S : Suite) (scalar : Int → Int) (o : Output) (s : BlindedSignature) (q : Proof) :
    Prop where
  secret : ∃ text, Bytes.text? o.secret = some text ∧ q.secret = .str text
  amount : q.amount = s.amount
  keyset : q.keyset = s.keyset
  c : ∃ y hex, S.hashToCurve o.secret = .ok y ∧ S.pointHex (S.mul (scalar s.amount) y) = .ok hex ∧
    q.c = .str hex

/-- Signed for an amount with the scalar behind the keyset's key, an output that was
made from a secret gives a proof of it. -/
theorem Blinded.unblinded {o : Output} (ho : o.Blinded S) (C : S.Group G) {scalar : Int → Int}
    {k : Keyset} {s : BlindedSignature} {q : Proof} (hk : k.KeyedBy S scalar)
    (hs : C.Signed scalar o.message.b s) (h : o.toProof S s k = .ok q) :
    o.Unblinded S scalar s q := by
  obtain ⟨key, signed, point, text, hex, hkey, hnull, hsigned, hpoint, htext, hc, hq⟩ := toProof_inv h
  obtain ⟨b, hb, hbs⟩ := ho.blind
  obtain ⟨a, hy, rfl⟩ := C.blind hb
  have hkey := hk s.amount key hkey hnull
  rw [hpoint] at hkey
  have hs := hs _ hbs
  rw [hsigned] at hs
  cases hkey
  cases hs
  rw [Suite.unblind_signed_blind C hy hb] at hc
  exact ⟨⟨text, htext, hq.2.2.1⟩, hq.2.1, hq.1, _, hex, hy, hc, hq.2.2.2⟩

end Output

/-! ## A suite to calculate with -/

/-- Residues in place of a curve, and hashes that hide nothing. Of the keyed ones, that
for the first ten counters is what follows the keyset's id; beyond there is none. -/
def Suite.residues : Suite where
  Point := ZMod 101
  order := 101
  base := 1
  add a b := a + b
  mul k a := k * a
  encode a := .ok [2, UInt8.ofNat a.val]
  decode bs := .ok (bs.tail.map fun b => (b.toNat : ZMod 101)).sum
  sha256 m := m
  hmacSha256 _ m :=
    let i := Bytes.toNat (m.drop (m.length - 9))
    if i < 2560 then Bytes.ofNat 2 i else []
  hmacSha512 _ m := m

/-- Residues are a group, as points have to be. -/
def Suite.residuesGroup : Suite.residues.Group (ZMod 101) where
  point a := a
  generator := 1
  base := rfl
  add _ _ := rfl
  mul k a := (zsmul_eq_mul a k).symm
  order a := by
    change 101 • a = 0
    rw [nsmul_eq_mul, ZMod.natCast_self, zero_mul]
  decode bs q h := ⟨q, rfl⟩

/-- Residues are read as they were written. -/
theorem Suite.residues_decode {a : ZMod 101} {bs : Bytes} (h : Suite.residues.encode a = .ok bs) :
    Suite.residues.decode bs = .ok a := by
  cases h
  have hval : a.val % 2 ^ 8 = a.val := Nat.mod_eq_of_lt (lt_trans (ZMod.val_lt a) (by decide))
  change Except.ok (((UInt8.ofNat a.val).toNat : ZMod 101) + 0) = .ok a
  rw [UInt8.toNat_ofNat', hval, ZMod.natCast_zmod_val, add_zero]

theorem Output.readPoint_residues {a : ZMod 101} {b : Json}
    (h : (Suite.residues.pointHex a).map Json.str = .ok b) : Output.readPoint .residues b = .ok a := by
  cases h
  change Suite.residues.pointOfHex (Bytes.hex [2, UInt8.ofNat a.val]) = .ok a
  unfold Suite.pointOfHex
  rw [Bytes.ofHex?_hex]
  change (Suite.residues.decode _).mapError _ = _
  rw [Suite.residues_decode rfl]
  rfl

theorem Suite.residues_signed {scalar : Int → Int} {b : Json} {s : BlindedSignature}
    (h : (Output.readPoint .residues b).map (Suite.residues.mul (scalar s.amount)) =
      Output.readPoint .residues s.c) : Suite.residuesGroup.Signed scalar b s := by
  intro a ha
  rw [Output.readPoint_residues ha] at h
  exact h.symm

instance : DecidableEq Suite.residues.Point := inferInstanceAs (DecidableEq (ZMod 101))

end Ecash
