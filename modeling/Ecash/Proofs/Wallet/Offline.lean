import Ecash.Proofs.Wallet.Send

/-!
# What a send without a swap does with every proof

Of the proofs that may be sent, each is kept or sent (`sendOffline_divides`). When
evidence is required, proofs without it may not be sent, and are not kept either:
they are part of neither list (`sendOffline_accounts`, `sendOffline_drops`).
-/
namespace Ecash.Wallet

open Program Selection

variable {w : Wallet} {amount : Int} {proofs : List Proof} {options : OfflineOptions}
  {found : Partition}

theorem divided_self {α : Type} (xs : List α) : Divided xs xs [] :=
  ⟨List.range xs.length, [], List.pairwise_lt_range, by rw [List.append_nil],
    (arranged_range xs).symm, rfl⟩

/-- A sound selection divides the proofs, if only by keeping all of them. -/
theorem divided_of_sound {chain : KeyChain} {r : Request} (h : Sound chain r proofs found) :
    Divided proofs found.keep found.send := by
  rcases h with ⟨hkeep, hsend⟩ | ⟨-, hdiv, -⟩
  · rw [hkeep, hsend]
    exact divided_self proofs
  · exact hdiv

/-- Each of the proofs that may be sent is kept, or sent as a copy. -/
theorem sendOffline_divides {tr : List Exchange} (hd : Distinct proofs) (hp : Priced w.chain proofs)
    (h : (w.sendOffline amount proofs options).Yields tr (.ok found)) :
    ∃ sent, found.send = sent.map (·.prepared options.requireDleq) ∧
      Divided (options.offered proofs) found.keep sent := by
  obtain ⟨selected, hs, rfl⟩ := sendOffline_spec hd hp h
  exact ⟨selected.send, rfl, divided_of_sound hs⟩

/-- The proofs that may not be sent. -/
def OfflineOptions.withheld (options : OfflineOptions) (proofs : List Proof) : List Proof :=
  proofs.filter fun q => options.requireDleq && q.dleq.isNone

theorem offered_withheld_perm (options : OfflineOptions) (proofs : List Proof) :
    (options.offered proofs ++ options.withheld proofs).Perm proofs := by
  unfold OfflineOptions.offered OfflineOptions.withheld
  cases options.requireDleq with
  | false => simp
  | true =>
    have hnone : (fun q : Proof => true && q.dleq.isNone) = fun q => !q.dleq.isSome := by
      funext q
      cases q.dleq <;> rfl
    rw [hnone]
    exact List.filter_append_perm (fun q : Proof => q.dleq.isSome) proofs

theorem offered_eq_self (h : options.withheld proofs = []) : options.offered proofs = proofs := by
  have hlength := (offered_withheld_perm options proofs).length_eq
  rw [h, List.append_nil] at hlength
  exact (offered_sublist options proofs).eq_of_length hlength

/-- Whatever is asked of a send without a swap: the proofs that may be sent are
divided, by position, into those that are kept and those whose copies are sent.
Proofs without evidence where it is required are missing from both; as long as
there are none, no proof is lost. -/
theorem sendOffline_accounts {σ : Type} (handle : (c : Command) → σ → c.Answer × σ) (s : σ)
    (hd : Distinct proofs) (hp : Priced w.chain proofs)
    (h : ((w.sendOffline amount proofs options).run handle s).1 = .ok found) :
    ∃ sent, found.send = sent.map (·.prepared options.requireDleq) ∧
      Divided (options.offered proofs) found.keep sent ∧
      (found.keep ++ sent ++ options.withheld proofs).Perm proofs ∧
      (options.withheld proofs = [] → Divided proofs found.keep sent) := by
  obtain ⟨sent, hsend, hdiv⟩ := sendOffline_divides hd hp (h ▸ yields_run handle _ s)
  refine ⟨sent, hsend, hdiv, ?_, fun hnone => ?_⟩
  · exact (hdiv.perm.append_right _).trans (offered_withheld_perm options proofs)
  · rwa [offered_eq_self hnone] at hdiv

/-- A proof of two with evidence and one of one without. -/
def evidenced : List Proof :=
  [⟨ones.id, 2, .str "a", .null, some ⟨.str "e", .str "s", .str "r"⟩, .null, none⟩,
    ⟨ones.id, 1, .str "b", .null, none, .null, none⟩]

/-- The proof with evidence pays, the other one is in neither list. -/
theorem sendOffline_accounts_evidenced :
    ∃ sent, evidenced.take 1 = sent.map (·.prepared true) ∧
      ([] ++ sent ++ evidenced.drop 1).Perm evidenced := by
  have hd : Distinct evidenced := by decide
  have hp : Priced onesWallet.chain evidenced := by decide
  have hr : ((onesWallet.sendOffline 2 evidenced ⟨false, true, true⟩).run (World.handle oneElement)
      (.fresh none (.fresh []))).1 = .ok ⟨[], evidenced.take 1⟩ := by decide +kernel
  obtain ⟨sent, hsend, -, hperm, -⟩ := sendOffline_accounts (World.handle oneElement) _ hd hp hr
  exact ⟨sent, hsend, hperm⟩

/-- Not every proof is kept or sent when evidence is required. -/
theorem sendOffline_drops :
    ∃ found, ((onesWallet.sendOffline 2 evidenced ⟨false, true, true⟩).run (World.handle oneElement)
        (.fresh none (.fresh []))).1 = .ok found ∧ Distinct evidenced ∧
      Priced onesWallet.chain evidenced ∧
      ¬ ∃ sent, found.send = sent.map (·.prepared true) ∧ (found.keep ++ sent).Perm evidenced := by
  have hp : Priced onesWallet.chain evidenced := by decide
  refine ⟨⟨[], evidenced.take 1⟩, by decide +kernel, by decide, hp, ?_⟩
  rintro ⟨sent, hsend, hperm⟩
  have hone : (evidenced.take 1).length = (sent.map (·.prepared true)).length :=
    congrArg List.length hsend
  have htwo : sent.length = evidenced.length := hperm.length_eq
  rw [List.length_map, htwo] at hone
  exact absurd hone (by decide)

end Ecash.Wallet
