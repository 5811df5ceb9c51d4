import Ecash.Derivation.Extended
import Ecash.Proofs.Curve.Generator
import Ecash.Proofs.Outcome

/-!
# Keys stay in range

Whatever the keyed hash, as long as it gives 64 bytes, a key that is reached from a seed has 32
bytes, and its number is positive and below the order (`InRange`). The sum for a child is taken
modulo the order, which fits 32 bytes, and zero is refused. So every key has a public key, and
what is hashed for a child can always be put together: a derivation fails in two ways only
(`keys_in_range`).
-/
namespace Ecash

/-- The suite in use with another keyed hash for keys. -/
def Suite.hashing (hmac : (key message : Bytes) → Bytes) : Suite :=
  { Suite.secp256k1 with hmacSha512 := hmac }

namespace ExtendedKey

/-- A private key of 32 bytes that the group has, and a chain code of 32 bytes, after so many
derivations. -/
structure InRange (k : ExtendedKey) (derivations : Nat) : Prop where
  key_length : k.key.length = 32
  pos : 0 < k.scalar
  lt : k.scalar < Curve.n
  chainCode_length : k.chainCode.length = 32
  depth : k.depth = derivations

/-- Ends with such a key, or in one of the two ways in which a derivation fails. -/
def Derives (Q : ExtendedKey → Prop) (o : Outcome ExtendedKey) : Prop :=
  o = .error (.derivation .childTooLarge) ∨ o = .error (.derivation .childZero) ∨ ∃ k, o = .ok k ∧ Q k

/-- How the child at an index comes out, where `left` is the left half of the hash: it fails for
one that is too large or makes the sum zero, and else the child's bytes hold the sum. -/
def ChildFrom (S : Suite) (k : ExtendedKey) (i : Int) (left : Nat) : Prop :=
  Curve.n ≤ left ∧ k.child S i = .error (.derivation .childTooLarge) ∨
    left < Curve.n ∧ Curve.n ∣ left + k.scalar ∧ k.child S i = .error (.derivation .childZero) ∨
    left < Curve.n ∧ ∃ child, k.child S i = .ok child ∧ child.scalar = (left + k.scalar) % Curve.n

/-- A key to go on from. Its public key is a point's, and for a child 33 bytes and the index are
hashed. -/
structure Usable (hmac : (key message : Bytes) → Bytes) (k : ExtendedKey) : Prop where
  publicKey : ∃ bs, k.publicKey (Suite.hashing hmac) = .ok bs ∧ bs.length = 33 ∧
    Curve.decode bs = .ok (Curve.base.mul k.scalar)
  child : ∀ i : Int, 0 ≤ i → i < 2 ^ 32 → ∃ head index : Bytes, head.length = 33 ∧ index.length = 4 ∧
    Bytes.toNat index = i ∧ k.childMessage (Suite.hashing hmac) i = .ok (head ++ index) ∧
    k.ChildFrom (Suite.hashing hmac) i (Bytes.toNat ((hmac k.chainCode (head ++ index)).take 32))

variable {hmac : (key message : Bytes) → Bytes} {k : ExtendedKey} {d : Nat} {i : Int}

/-! ## Outcomes of derivations -/

section Derives

variable {Q R : ExtendedKey → Prop} {o : Outcome ExtendedKey}

theorem Derives.mono (h : Derives Q o) (himp : ∀ k, Q k → R k) : Derives R o := by
  obtain h | h | ⟨k, hk, hq⟩ := h
  · exact .inl h
  · exact .inr (.inl h)
  · exact .inr (.inr ⟨k, hk, himp k hq⟩)

theorem Derives.bind (h : Derives Q o) {f : ExtendedKey → Outcome ExtendedKey}
    (hf : ∀ k, Q k → Derives R (f k)) : Derives R (o >>= f) := by
  obtain rfl | rfl | ⟨k, rfl, hq⟩ := h
  · exact .inl rfl
  · exact .inr (.inl rfl)
  · exact hf k hq

end Derives

/-! ## Seeds -/

theorem ofSeed_cases (hlength : ∀ key message, (hmac key message).length = 64) {seed : Bytes}
    (hlow : 16 ≤ seed.length) (hhigh : seed.length ≤ 64) :
    let left := Bytes.toNat ((hmac (Bytes.ofText "Bitcoin seed") seed).take 32)
    (left = 0 ∨ Curve.n ≤ left) ∧
        ofSeed (Suite.hashing hmac) seed = .error (.derivation .seedOutOfRange) ∨
      ∃ k, ofSeed (Suite.hashing hmac) seed = .ok k ∧ k.scalar = left ∧ k.InRange 0 := by
  intro left
  let digest := hmac (Bytes.ofText "Bitcoin seed") seed
  have hstep : ofSeed (Suite.hashing hmac) seed =
      if left = 0 ∨ Curve.n ≤ left then .error (.derivation .seedOutOfRange)
      else .ok ⟨digest.take 32, digest.drop 32, 0, 0⟩ := if_neg (by omega)
  rw [hstep]
  split_ifs with hrange
  · exact .inl ⟨hrange, rfl⟩
  · obtain ⟨hne, hlt⟩ := not_or.mp hrange
    refine .inr ⟨_, rfl, rfl, ?_, Nat.pos_of_ne_zero hne, not_le.mp hlt, ?_, rfl⟩
    · rw [List.length_take, hlength, Nat.min_eq_left (by decide)]
    · rw [List.length_drop, hlength]

/-! ## Children -/

/-- The public key is that of a point of the curve. -/
theorem InRange.publicKey (h : k.InRange d) (hmac : (key message : Bytes) → Bytes) :
    ∃ bs, k.publicKey (Suite.hashing hmac) = .ok bs ∧ bs.length = 33 ∧
      Curve.decode bs = .ok (Curve.base.mul k.scalar) := by
  have hpos : (0 : Int) < k.scalar := by exact_mod_cast h.pos
  have hlt : (k.scalar : Int) < Curve.n := by exact_mod_cast h.lt
  obtain ⟨bs, hwrite, hlength, hread⟩ := Curve.encode_mul_base hpos hlt
  refine ⟨bs, ?_, hlength, hread⟩
  unfold ExtendedKey.publicKey Suite.publicKey
  rw [if_pos ⟨hpos, hlt⟩]
  exact congrArg (Except.mapError Failure.point) hwrite

/-- What is hashed for a child is the key or the public key, and the index. -/
theorem InRange.childMessage (h : k.InRange d) (hmac : (key message : Bytes) → Bytes)
    (hlow : 0 ≤ i) (hhigh : i < 2 ^ 32) : ∃ head : Bytes, head.length = 33 ∧
      k.childMessage (Suite.hashing hmac) i = .ok (head ++ Bytes.ofNat 4 i.toNat) := by
  have hindex : indexBytes i = .ok (Bytes.ofNat 4 i.toNat) := if_pos ⟨hlow, hhigh⟩
  unfold ExtendedKey.childMessage
  dsimp only
  split
  · refine ⟨0 :: k.key, by rw [List.length_cons, h.key_length], ?_⟩
    rw [hindex]
    rfl
  · obtain ⟨bs, hbs, hlength, -⟩ := h.publicKey hmac
    refine ⟨bs, hlength, ?_⟩
    rw [hbs, hindex]
    rfl

/-- A child is in range again, one derivation further. -/
theorem InRange.child (hlength : ∀ key message, (hmac key message).length = 64) (h : k.InRange d)
    {message : Bytes} (hm : k.childMessage (Suite.hashing hmac) i = .ok message) :
    k.ChildFrom (Suite.hashing hmac) i (Bytes.toNat ((hmac k.chainCode message).take 32)) ∧
      Derives (·.InRange (d + 1)) (k.child (Suite.hashing hmac) i) := by
  let digest := hmac k.chainCode message
  let sum := (Bytes.toNat (digest.take 32) + k.scalar) % Curve.n
  have hstep : k.child (Suite.hashing hmac) i =
      if Curve.n ≤ Bytes.toNat (digest.take 32) then .error (.derivation .childTooLarge)
      else if sum = 0 then .error (.derivation .childZero)
      else .ok ⟨Bytes.ofNat 32 sum, digest.drop 32, k.depth + 1, i⟩ := by
    unfold ExtendedKey.child
    rw [hm]
    rfl
  unfold ChildFrom
  rw [hstep]
  split_ifs with hlarge hzero
  · exact ⟨.inl ⟨hlarge, rfl⟩, .inl rfl⟩
  · exact ⟨.inr (.inl ⟨not_le.mp hlarge, Nat.dvd_of_mod_eq_zero hzero, rfl⟩), .inr (.inl rfl)⟩
  have hlt : sum < Curve.n := Nat.mod_lt _ Curve.prime_n.pos
  have hscalar : Bytes.toNat (Bytes.ofNat 32 sum) = sum := by
    rw [Bytes.toNat_ofNat]
    exact Nat.mod_eq_of_lt (hlt.trans_le Curve.n_le)
  refine ⟨.inr (.inr ⟨not_le.mp hlarge, _, rfl, hscalar⟩),
    .inr (.inr ⟨_, rfl, Bytes.length_ofNat _ _, ?_, ?_, ?_, ?_⟩)⟩
  · rw [scalar, hscalar]
    exact Nat.pos_of_ne_zero hzero
  · rw [scalar, hscalar]
    exact hlt
  · rw [List.length_drop, hlength]
  · exact congrArg (· + 1) h.depth

theorem InRange.usable (hlength : ∀ key message, (hmac key message).length = 64) (h : k.InRange d) :
    k.Usable hmac := by
  refine ⟨h.publicKey hmac, fun i hlow hhigh => ?_⟩
  obtain ⟨head, hhead, hmessage⟩ := h.childMessage hmac hlow hhigh
  refine ⟨head, Bytes.ofNat 4 i.toNat, hhead, Bytes.length_ofNat _ _, ?_, hmessage,
    (h.child hlength hmessage).1⟩
  rw [Bytes.toNat_ofNat]
  omega

/-! ## Paths -/

/-- A key is in range after a list of derivations, one further for each index. -/
theorem InRange.descend (hlength : ∀ key message, (hmac key message).length = 64) {indices : List Int}
    (hindices : ∀ i ∈ indices, 0 ≤ i ∧ i < 2 ^ 32) (h : k.InRange d) :
    Derives (·.InRange (d + indices.length)) (k.descend (Suite.hashing hmac) indices) := by
  induction indices generalizing k d with
  | nil => exact .inr (.inr ⟨k, rfl, h⟩)
  | cons i indices ih =>
    obtain ⟨⟨hlow, hhigh⟩, hrest⟩ := List.forall_mem_cons.mp hindices
    obtain ⟨head, -, hmessage⟩ := h.childMessage hmac hlow hhigh
    refine (h.child hlength hmessage).2.bind fun child hchild => ?_
    rw [List.length_cons, Nat.add_comm indices.length, ← Nat.add_assoc]
    exact ih hrest hchild

/-- Whatever the keyed hash, as long as it gives 64 bytes: a seed of 16 to 64 bytes is refused
where its hash is out of range, or has a key. From there, whatever the indices below 2^32, a path
is refused because some hash is too large or some child is zero, or it leads to a private key of
32 bytes whose number is positive and below the order, with a chain code of 32 bytes and as deep
as there were derivations. It has a public key of 33 bytes, which are read as the multiple of the
base point, and every index names a child, in bytes that hold it; the child's bytes hold its
number. -/
theorem keys_in_range (hmac : (key message : Bytes) → Bytes)
    (hlength : ∀ key message, (hmac key message).length = 64) (seed : Bytes)
    (hseed : 16 ≤ seed.length ∧ seed.length ≤ 64) (indices : List Int)
    (hindices : ∀ i ∈ indices, 0 ≤ i ∧ i < 2 ^ 32) :
    let left := Bytes.toNat ((hmac (Bytes.ofText "Bitcoin seed") seed).take 32)
    (left = 0 ∨ Curve.n ≤ left) ∧
        ofSeed (Suite.hashing hmac) seed = .error (.derivation .seedOutOfRange) ∨
      ∃ master, ofSeed (Suite.hashing hmac) seed = .ok master ∧ master.scalar = left ∧
        Derives (fun k => k.InRange indices.length ∧ k.Usable hmac)
          (master.descend (Suite.hashing hmac) indices) := by
  refine (ofSeed_cases hlength hseed.1 hseed.2).imp_right fun ⟨master, hmaster, hleft, hrange⟩ => ?_
  refine ⟨master, hmaster, hleft,
    (hrange.descend hlength hindices).mono fun k hk => ⟨?_, hk.usable hlength⟩⟩
  rwa [Nat.zero_add] at hk

/-- Hashes to the message and ones after it. -/
def padded (_ message : Bytes) : Bytes := (message ++ List.replicate 64 1).take 64

/-- Both a hardened index and one that is not lead on. -/
theorem keys_in_range_padded : ∃ master k,
    ofSeed (Suite.hashing padded) (List.replicate 16 0) = .ok master ∧
      master.descend (Suite.hashing padded) [hardened, 1] = .ok k ∧ k.InRange 2 ∧ k.Usable padded := by
  have hlength (key message : Bytes) : (padded key message).length = 64 := by simp [padded]
  have hok : (ofSeed (Suite.hashing padded) (List.replicate 16 0) >>=
      (·.descend (Suite.hashing padded) [hardened, 1])).toOption.isSome = true := by decide +kernel
  obtain ⟨k, hk⟩ := Option.isSome_iff_exists.mp hok
  obtain ⟨master, hmaster, hk⟩ := Outcome.bind_ok_iff.mp (Outcome.toOption_eq_some_iff.mp hk)
  obtain ⟨-, herror⟩ | ⟨_, h, -, hderives⟩ :=
    keys_in_range padded hlength (List.replicate 16 0) (by decide) [hardened, 1] (by decide)
  · cases hmaster.symm.trans herror
  cases hmaster.symm.trans h
  obtain herror | herror | ⟨_, h, hrange, husable⟩ := hderives
  · cases hk.symm.trans herror
  · cases hk.symm.trans herror
  · cases hk.symm.trans h
    exact ⟨master, k, hmaster, hk, hrange, husable⟩

end ExtendedKey

end Ecash
