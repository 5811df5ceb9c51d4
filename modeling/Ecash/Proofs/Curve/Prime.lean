import Ecash.Curve.Secp256k1
import Mathlib.Data.List.Prime
import Mathlib.NumberTheory.LucasPrimality
import Mathlib.Tactic.NormNum.Prime

/-!
# The field's prime

`p` is prime by a certificate: a number `m` is prime if some base gives one with the exponent
`m - 1` and with no quotient of it by a prime factor. Each factor is small or has an entry
of its own, before (`prime_of_certified`). The powers are those of `powMod`, so that the
kernel can run the test.
-/
namespace Ecash.Curve

/-- A number with what shows it to be prime: a base, and the prime factors of the number before it. -/
structure Entry where
  number : Nat
  base : Nat
  factors : List Nat

/-- The test of an entry, given that `known` are prime. -/
def Entry.passes (known : List Nat) (e : Entry) : Bool :=
  1 < e.number && e.factors.prod == e.number - 1 && powMod e.number e.base (e.number - 1) == 1 &&
    e.factors.all fun q => known.contains q && powMod e.number e.base ((e.number - 1) / q) != 1

/-- Every entry passes, where the numbers of those before it are known too. -/
def certified (known : List Nat) : List Entry → Bool
  | [] => true
  | e :: es => e.passes known && certified (e.number :: known) es

theorem powMod_eq_one_iff {m : Nat} (hm : 1 < m) (b e : Nat) : powMod m b e = 1 ↔ (b : ZMod m) ^ e = 1 := by
  have hone : (b : ZMod m) ^ e = 1 ↔ ((b ^ e : Nat) : ZMod m) = (1 : Nat) := by push_cast; rfl
  rw [powMod_eq m b e hm, hone, ZMod.natCast_eq_natCast_iff', Nat.mod_eq_of_lt hm]

theorem Entry.prime_of_passes {known : List Nat} {e : Entry} (hknown : ∀ q ∈ known, q.Prime)
    (h : e.passes known = true) : e.number.Prime := by
  simp only [Entry.passes, Bool.and_eq_true, decide_eq_true_eq, beq_iff_eq, List.all_eq_true,
    List.contains_iff_mem, bne_iff_ne, ne_eq] at h
  obtain ⟨⟨⟨hlt, hprod⟩, hone⟩, hfactors⟩ := h
  refine lucas_primality _ (e.base : ZMod e.number) ((powMod_eq_one_iff hlt _ _).mp hone) fun q hq hdvd => ?_
  obtain ⟨r, hr, hqr⟩ := (Prime.dvd_prod_iff hq.prime).mp (hprod ▸ hdvd)
  obtain ⟨hmem, hne⟩ := hfactors r hr
  rw [(Nat.prime_dvd_prime_iff_eq hq (hknown r hmem)).mp hqr]
  exact mt (powMod_eq_one_iff hlt _ _).mpr hne

theorem prime_of_certified {known : List Nat} {es : List Entry} (hknown : ∀ q ∈ known, q.Prime)
    (h : certified known es = true) : ∀ e ∈ es, e.number.Prime := by
  induction es generalizing known with
  | nil => simp
  | cons e es ih =>
    obtain ⟨hpasses, hrest⟩ := Bool.and_eq_true_iff.mp h
    have he := Entry.prime_of_passes hknown hpasses
    exact List.forall_mem_cons.mpr ⟨he, ih (List.forall_mem_cons.mpr ⟨he, hknown⟩) hrest⟩

/-- The small primes of the certificate. -/
def smallPrimes : List Nat :=
  [2, 3, 5, 7, 11, 13, 29, 31, 53, 971, 1373, 1627, 2621, 2657, 4423, 5323, 7723, 13441, 20113, 24809,
    41201, 96557]

/-- The certificate; its last entry is for `p`. -/
def certificate : List Entry :=
  [⟨1206781, 10, [2, 2, 3, 5, 20113]⟩,
   ⟨7240687, 3, [2, 3, 1206781]⟩,
   ⟨13331831, 13, [2, 5, 971, 1373]⟩,
   ⟨107590001, 3, [2, 2, 2, 2, 5, 5, 5, 5, 7, 29, 53]⟩,
   ⟨173378833005251801, 6, [2, 2, 2, 5, 5, 2621, 24809, 13331831]⟩,
   ⟨22149492674086928081353, 5, [2, 2, 2, 3, 5323, 173378833005251801]⟩,
   ⟨132896956044521568488119, 6, [2, 3, 22149492674086928081353]⟩,
   ⟨255515944373312847190720520512484175977, 3,
    [2, 2, 2, 7, 7, 11, 1627, 2657, 4423, 41201, 96557, 7240687, 107590001]⟩,
   ⟨205115282021455665897114700593932402728804164701536103180137503955397371, 10,
    [2, 3, 5, 29, 29, 31, 7723, 132896956044521568488119, 255515944373312847190720520512484175977]⟩,
   ⟨p, 3, [2, 3, 7, 13441, 205115282021455665897114700593932402728804164701536103180137503955397371]⟩]

theorem smallPrimes_prime : ∀ q ∈ smallPrimes, q.Prime := by
  simp only [smallPrimes, List.forall_mem_cons]
  norm_num

theorem prime_p : p.Prime :=
  prime_of_certified smallPrimes_prime (by decide +kernel : certified smallPrimes certificate = true)
    ⟨p, 3, _⟩ (List.mem_of_getLast? rfl)

end Ecash.Curve
