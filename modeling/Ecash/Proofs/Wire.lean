import Ecash.Blinded
import Ecash.Proofs.Outcome

/-!
# Reading settles at once

A proof, a blinded message and a signature are read from objects of many forms: either spelling
of a member's name will do, amounts may be numerals, evidence that counts as absent is none, and
members that are not asked for are passed over. Each reader takes what it needs and nothing else
(`ofJson_ok_iff`). What is written has one form, and is read as the value that it was written of
(`ofJson_toJson`). So what was read once stays as it is, however often it is written and read
(`wire_normalises`).
-/
namespace Ecash

variable {v w : Json} {name : String}

namespace Json

theorem asObject_ok_iff {ms : List (String × Json)} : v.asObject = .ok ms ↔ v = .obj ms := by
  cases v <;> simp [asObject]

/-- Only members that are there can be asked for. -/
theorem required_ok_iff : v.required name = .ok w ↔ v.member? name = some w := by
  cases v with
  | obj ms => cases h : ms.lookup name <;> simp [required, member?, h]
  | _ => simp [required, member?]

theorem eq_obj_of_member? (h : v.member? name = some w) : ∃ ms, v = .obj ms := by
  cases v with
  | obj ms => exact ⟨ms, rfl⟩
  | _ => cases h

/-- The value has an amount, and it is a whole number in one of its forms. -/
def HasAmount (v : Json) : Prop := ∃ a n, v.member? "amount" = some a ∧ a.toInt = .ok n

end Json

/-- Where what is read is read again from what is written of it, reading a second time changes
nothing, not even an error. -/
theorem reread {α : Type} {read : Json → Outcome α} {write : α → Json}
    (h : ∀ v x, read v = .ok x → read (write x) = .ok x) (v : Json) :
    (do read (write (← read v))) = read v := by
  cases hv : read v with
  | error e => rfl
  | ok x => exact h v x hv

/-! ## Evidence -/

namespace Dleq

variable {d : Dleq}

/-- Evidence that counts as absent, or has its two numbers. -/
def Readable (v : Json) : Prop :=
  v.truthy = true → (v.member? "e").isSome ∧ (v.member? "s").isSome

theorem ofJson_ok_iff : ofJson v = .ok d ↔
    v.member? "e" = some d.e ∧ v.member? "s" = some d.s ∧ d.r = v.memberOr "r" .null := by
  obtain ⟨e, s, r⟩ := d
  simp only [ofJson, Outcome.bind_ok_iff, Outcome.pure_ok_iff, Json.required_ok_iff, mk.injEq]
  constructor
  · rintro ⟨_, he, _, hs, rfl, rfl, rfl⟩
    exact ⟨he, hs, rfl⟩
  · rintro ⟨he, hs, rfl⟩
    exact ⟨e, he, s, hs, rfl, rfl, rfl⟩

theorem optional_isOk_iff : (∃ od, optional v = .ok od) ↔ Readable v := by
  unfold optional Readable
  by_cases ht : v.truthy = true
  · rw [if_pos ht]
    constructor
    · rintro ⟨od, h⟩ -
      obtain ⟨d, hd, -⟩ := Outcome.bind_ok_iff.mp ((map_eq_pure_bind some _).symm.trans h)
      obtain ⟨he, hs, -⟩ := ofJson_ok_iff.mp hd
      exact ⟨by rw [he]; rfl, by rw [hs]; rfl⟩
    · intro h
      obtain ⟨e, he⟩ := Option.isSome_iff_exists.mp (h ht).1
      obtain ⟨s, hs⟩ := Option.isSome_iff_exists.mp (h ht).2
      have hd : ofJson v = .ok ⟨e, s, v.memberOr "r" .null⟩ := ofJson_ok_iff.mpr ⟨he, hs, rfl⟩
      rw [hd]
      exact ⟨_, rfl⟩
  · rw [if_neg ht]
    exact iff_of_true ⟨none, rfl⟩ (absurd · ht)

theorem memberOr_r (d : Dleq) : d.toJson.memberOr "r" .null = d.r := by
  by_cases hr : d.r = .null <;> simp [toJson, Json.memberOr, Json.member?, List.lookup_cons, hr]

theorem ofJson_toJson (d : Dleq) : ofJson d.toJson = .ok d :=
  ofJson_ok_iff.mpr ⟨rfl, rfl, d.memberOr_r.symm⟩

/-- What is written of evidence does not count as absent. -/
theorem optional_written (od : Option Dleq) : optional ((od.map toJson).getD .null) = .ok od := by
  cases od with
  | none => rfl
  | some d =>
    have htruthy : d.toJson.truthy = true := rfl
    rw [Option.map_some, Option.getD_some, optional, if_pos htruthy, ofJson_toJson]
    rfl

end Dleq

/-! ## Proofs -/

namespace Proof

variable {q : Proof}

theorem ofJson_ok_iff : ofJson v = .ok q ↔ (∃ ms, v = .obj ms) ∧
    (∃ a, v.member? "amount" = some a ∧ a.toInt = .ok q.amount) ∧
    v.member? "secret" = some q.secret ∧ Dleq.optional (v.memberOr "dleq" .null) = .ok q.dleq ∧
    q.keyset = v.memberOr "id" (v.memberOr "keyset_id" (.str "")) ∧
    q.c = v.memberOr "C" (v.memberOr "c" (.str "")) ∧
    q.witness = v.memberOr "witness" .null ∧ q.handle = none := by
  obtain ⟨keyset, amount, secret, c, dleq, witness, handle⟩ := q
  simp only [ofJson, Outcome.bind_ok_iff, Outcome.pure_ok_iff, Json.required_ok_iff,
    Json.asObject_ok_iff, mk.injEq]
  constructor
  · rintro ⟨ms, hms, a, ha, _, hn, _, hs, _, hd, rfl, rfl, rfl, rfl, rfl, rfl, rfl⟩
    exact ⟨⟨ms, hms⟩, ⟨a, ha, hn⟩, hs, hd, rfl, rfl, rfl, rfl⟩
  · rintro ⟨⟨ms, hms⟩, ⟨a, ha, hn⟩, hs, hd, rfl, rfl, rfl, rfl⟩
    exact ⟨ms, hms, a, ha, amount, hn, secret, hs, dleq, hd, rfl, rfl, rfl, rfl, rfl, rfl, rfl⟩

theorem ofJson_isOk_iff : (∃ q, ofJson v = .ok q) ↔
    v.HasAmount ∧ (v.member? "secret").isSome ∧ Dleq.Readable (v.memberOr "dleq" .null) := by
  rw [← Dleq.optional_isOk_iff]
  constructor
  · rintro ⟨q, h⟩
    obtain ⟨-, ⟨a, ha, hn⟩, hs, hd, -⟩ := ofJson_ok_iff.mp h
    exact ⟨⟨a, q.amount, ha, hn⟩, by rw [hs]; rfl, q.dleq, hd⟩
  · rintro ⟨⟨a, n, ha, hn⟩, hs, od, hd⟩
    obtain ⟨s, hs⟩ := Option.isSome_iff_exists.mp hs
    refine ⟨⟨v.memberOr "id" (v.memberOr "keyset_id" (.str "")), n, s,
      v.memberOr "C" (v.memberOr "c" (.str "")), od, v.memberOr "witness" .null, none⟩,
      ofJson_ok_iff.mpr ?_⟩
    exact ⟨Json.eq_obj_of_member? ha, ⟨a, ha, hn⟩, hs, hd, rfl, rfl, rfl, rfl⟩

theorem memberOr_dleq (q : Proof) :
    q.toJson.memberOr "dleq" .null = (q.dleq.map Dleq.toJson).getD .null := by
  cases hd : q.dleq <;> by_cases hw : q.witness = .null <;>
    simp [toJson, Json.memberOr, Json.member?, List.lookup_cons, hd, hw]

theorem memberOr_witness (q : Proof) : q.toJson.memberOr "witness" .null = q.witness := by
  cases hd : q.dleq <;> by_cases hw : q.witness = .null <;>
    simp [toJson, Json.memberOr, Json.member?, List.lookup_cons, hd, hw]

/-- A handle is not written. -/
theorem ofJson_toJson (q : Proof) : ofJson q.toJson = .ok { q with handle := none } :=
  ofJson_ok_iff.mpr ⟨⟨_, rfl⟩, ⟨.int q.amount, rfl, rfl⟩, rfl,
    by rw [memberOr_dleq, Dleq.optional_written], rfl, rfl, q.memberOr_witness.symm, rfl⟩

theorem reread_of_read (h : ofJson v = .ok q) : ofJson q.toJson = .ok q := by
  obtain ⟨-, -, -, -, -, -, -, hhandle⟩ := ofJson_ok_iff.mp h
  rw [ofJson_toJson, ← hhandle]

end Proof

/-! ## Messages and signatures -/

namespace BlindedMessage

variable {m : BlindedMessage}

theorem ofJson_ok_iff : ofJson v = .ok m ↔
    (∃ a, v.member? "amount" = some a ∧ a.toInt = .ok m.amount) ∧
    m.keyset = v.memberOr "id" (v.memberOr "keyset_id" (.str "")) ∧
    m.b = v.memberOr "B_" (v.memberOr "b_" (.str "")) := by
  obtain ⟨amount, keyset, b⟩ := m
  simp only [ofJson, Outcome.bind_ok_iff, Outcome.pure_ok_iff, Json.required_ok_iff, mk.injEq]
  constructor
  · rintro ⟨a, ha, _, hn, rfl, rfl, rfl⟩
    exact ⟨⟨a, ha, hn⟩, rfl, rfl⟩
  · rintro ⟨⟨a, ha, hn⟩, rfl, rfl⟩
    exact ⟨a, ha, amount, hn, rfl, rfl, rfl⟩

theorem ofJson_isOk_iff : (∃ m, ofJson v = .ok m) ↔ v.HasAmount := by
  constructor
  · rintro ⟨m, h⟩
    obtain ⟨⟨a, ha, hn⟩, -⟩ := ofJson_ok_iff.mp h
    exact ⟨a, m.amount, ha, hn⟩
  · rintro ⟨a, n, ha, hn⟩
    exact ⟨⟨n, v.memberOr "id" (v.memberOr "keyset_id" (.str "")),
      v.memberOr "B_" (v.memberOr "b_" (.str ""))⟩, ofJson_ok_iff.mpr ⟨⟨a, ha, hn⟩, rfl, rfl⟩⟩

theorem ofJson_toJson (m : BlindedMessage) : ofJson m.toJson = .ok m :=
  ofJson_ok_iff.mpr ⟨⟨.int m.amount, rfl, rfl⟩, rfl, rfl⟩

end BlindedMessage

namespace BlindedSignature

variable {s : BlindedSignature}

theorem ofJson_ok_iff : ofJson v = .ok s ↔ (∃ ms, v = .obj ms) ∧
    (∃ a, v.member? "amount" = some a ∧ a.toInt = .ok s.amount) ∧
    Dleq.optional (v.memberOr "dleq" .null) = .ok s.dleq ∧
    s.keyset = v.memberOr "id" (v.memberOr "keyset_id" (.str "")) ∧
    s.c = v.memberOr "C_" (v.memberOr "c_" (.str "")) := by
  obtain ⟨amount, keyset, c, dleq⟩ := s
  simp only [ofJson, Outcome.bind_ok_iff, Outcome.pure_ok_iff, Json.required_ok_iff,
    Json.asObject_ok_iff, mk.injEq]
  constructor
  · rintro ⟨ms, hms, a, ha, _, hn, _, hd, rfl, rfl, rfl, rfl⟩
    exact ⟨⟨ms, hms⟩, ⟨a, ha, hn⟩, hd, rfl, rfl⟩
  · rintro ⟨⟨ms, hms⟩, ⟨a, ha, hn⟩, hd, rfl, rfl⟩
    exact ⟨ms, hms, a, ha, amount, hn, dleq, hd, rfl, rfl, rfl, rfl⟩

theorem ofJson_isOk_iff : (∃ s, ofJson v = .ok s) ↔
    v.HasAmount ∧ Dleq.Readable (v.memberOr "dleq" .null) := by
  rw [← Dleq.optional_isOk_iff]
  constructor
  · rintro ⟨s, h⟩
    obtain ⟨-, ⟨a, ha, hn⟩, hd, -⟩ := ofJson_ok_iff.mp h
    exact ⟨⟨a, s.amount, ha, hn⟩, s.dleq, hd⟩
  · rintro ⟨⟨a, n, ha, hn⟩, od, hd⟩
    refine ⟨⟨n, v.memberOr "id" (v.memberOr "keyset_id" (.str "")),
      v.memberOr "C_" (v.memberOr "c_" (.str "")), od⟩, ofJson_ok_iff.mpr ?_⟩
    exact ⟨Json.eq_obj_of_member? ha, ⟨a, ha, hn⟩, hd, rfl, rfl⟩

theorem memberOr_dleq (s : BlindedSignature) :
    s.toJson.memberOr "dleq" .null = (s.dleq.map Dleq.toJson).getD .null := by
  cases hd : s.dleq <;> simp [toJson, Json.memberOr, Json.member?, List.lookup_cons, hd]

theorem ofJson_toJson (s : BlindedSignature) : ofJson s.toJson = .ok s :=
  ofJson_ok_iff.mpr ⟨⟨_, rfl⟩, ⟨.int s.amount, rfl, rfl⟩,
    by rw [memberOr_dleq, Dleq.optional_written], rfl, rfl⟩

end BlindedSignature

/-- A proof is read from every object that has an amount, a secret, and evidence that is complete
or counts as absent; a signature needs no secret, and a blinded message the amount only. For each
of the three: to write what was read and to read it again is to read once, and every value is
read from what is written of it. A proof's handle is not written. -/
theorem wire_normalises :
    (∀ v, ((∃ q, Proof.ofJson v = .ok q) ↔
        v.HasAmount ∧ (v.member? "secret").isSome ∧ Dleq.Readable (v.memberOr "dleq" .null)) ∧
      (do Proof.ofJson (← Proof.ofJson v).toJson) = Proof.ofJson v) ∧
    (∀ q : Proof, Proof.ofJson q.toJson = .ok { q with handle := none }) ∧
    (∀ v, ((∃ m, BlindedMessage.ofJson v = .ok m) ↔ v.HasAmount) ∧
      (do BlindedMessage.ofJson (← BlindedMessage.ofJson v).toJson) = BlindedMessage.ofJson v) ∧
    (∀ m : BlindedMessage, BlindedMessage.ofJson m.toJson = .ok m) ∧
    (∀ v, ((∃ s, BlindedSignature.ofJson v = .ok s) ↔
        v.HasAmount ∧ Dleq.Readable (v.memberOr "dleq" .null)) ∧
      (do BlindedSignature.ofJson (← BlindedSignature.ofJson v).toJson) =
        BlindedSignature.ofJson v) ∧
    ∀ s : BlindedSignature, BlindedSignature.ofJson s.toJson = .ok s := by
  refine ⟨fun v => ⟨Proof.ofJson_isOk_iff, ?_⟩, Proof.ofJson_toJson,
    fun v => ⟨BlindedMessage.ofJson_isOk_iff, ?_⟩, BlindedMessage.ofJson_toJson,
    fun v => ⟨BlindedSignature.ofJson_isOk_iff, ?_⟩, BlindedSignature.ofJson_toJson⟩
  · exact reread (fun _ _ => Proof.reread_of_read) v
  · exact reread (fun _ m _ => m.ofJson_toJson) v
  · exact reread (fun _ s _ => s.ofJson_toJson) v

/-- Of two spellings the first counts, the amount is a numeral, the evidence is empty, and the
witness stays as it is. -/
example : (do
      let q ← Proof.ofJson <| .obj
        [("keyset_id", "01"), ("id", "00"), ("amount", " 8 "), ("secret", .null), ("c", "02"),
          ("dleq", .obj []), ("witness", .obj [("signatures", .arr [])]), ("memo", "extra")]
      return q.toJson) =
    .ok (.obj [("id", "00"), ("amount", .int 8), ("secret", .null), ("C", "02"),
      ("witness", .obj [("signatures", .arr [])])]) := by
  rfl

end Ecash
