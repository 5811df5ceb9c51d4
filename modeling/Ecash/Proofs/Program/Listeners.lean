import Ecash.Proofs.Program.Announcement

/-!
# Programs that do not mind who listens

Programs pass on news in the middle of what they do. `Announces p`: the programs `p`, one for
each choice of the listeners of the call, announce the counters they are granted and the melts
they submit, and are otherwise the same. Whoever listens, they end the same, and beside the news
they ask for the same and are answered the same (`Announces.run`). `Heard` says where in a run the
announcements stand, each of them complete: there is one for each block of counters and one for
each melt, with the same news whoever listens, and nothing else reaches a listener
(`Announces.heard`).
-/
namespace Ecash

/-! ## News -/

/-- Has to do with who is told, or with what comes of it. -/
def Command.listens : Command → Bool
  | .listeners _ | .tell .. | .warn (.listenerFailed _) => true
  | _ => false

/-- Has nothing to do with news, and is none: neither counters that may be granted, nor a melt. -/
def Command.Plain : Command → Prop
  | .reserve .. | .call (.melt _) | .listeners _ | .tell .. | .warn (.listenerFailed _) => False
  | _ => True

/-- Counters that are refused are no news. -/
def Exchange.Plain : Exchange → Prop
  | ⟨.reserve .., .error _⟩ => True
  | x => x.command.Plain

theorem Command.Plain.unheard {c : Command} (h : c.Plain) : c.listens = false := by
  cases c with
  | listeners t | tell l t notice => cases h
  | warn w =>
    cases w with
    | listenerFailed t => cases h
    | _ => rfl
  | _ => rfl

theorem Command.Plain.exchange {c : Command} (h : c.Plain) (a : c.Answer) : Exchange.Plain ⟨c, a⟩ := by
  unfold Exchange.Plain
  split
  · trivial
  · exact h

/-- What is asked and answered beside the news. -/
def unheard (tr : List Exchange) : List Exchange := tr.filter (!·.command.listens)

theorem unheard_cons {x : Exchange} (hx : x.command.listens = false) (tr : List Exchange) :
    unheard (x :: tr) = x :: unheard tr :=
  List.filter_cons_of_pos (by simp [hx])

theorem unheard_append (t₁ t₂ : List Exchange) : unheard (t₁ ++ t₂) = unheard t₁ ++ unheard t₂ :=
  List.filter_append ..

/-- Everything in an announcement has to do with listeners. -/
theorem Emission.unheard {topic : Topic} {notice : Notice} {own : Option Listener} {tr : List Exchange}
    (h : Emission topic notice own tr) : unheard tr = [] := by
  obtain ⟨first, rest, -, rfl⟩ := h
  have htelling (reactions : List (Listener × Bool)) :
      Ecash.unheard (reactions.flatMap (telling topic notice)) = [] := by
    refine List.filter_eq_nil_iff.mpr fun x hx => ?_
    obtain ⟨⟨l, took⟩, -, hx⟩ := List.mem_flatMap.mp hx
    cases took with
    | true =>
      obtain rfl := List.mem_singleton.mp hx
      simp [Command.listens]
    | false =>
      obtain rfl | rfl := List.mem_pair.mp hx <;> simp [Command.listens]
  rw [unheard_append, htelling, List.nil_append]
  exact htelling rest

/-- The listeners of one call. -/
structure OwnListeners where
  reserved : Option Listener
  blanks : Option Listener
  deriving DecidableEq, Repr

/-- Where in a run the news stands, in order. Counters that are granted are counted and then
announced; a melt is announced and then submitted. Nothing else has to do with listeners. -/
inductive Heard (own : OwnListeners) : List Notice → List Exchange → Prop where
  | nil : Heard own [] []
  | plain {x : Exchange} {news : List Notice} {tr : List Exchange} (hx : x.Plain)
    (h : Heard own news tr) : Heard own news (x :: tr)
  | reserved {keyset : Json} {n : Int} {block : CounterBlock} {news : List Notice}
    {t tr : List Exchange} (ht : Emission .countersReserved (.reserved ⟨keyset, block⟩) own.reserved t)
    (h : Heard own news tr) : Heard own (.reserved ⟨keyset, block⟩ :: news)
      (⟨.reserve keyset n, .ok block⟩ :: ⟨.record (.countersReserved keyset block.count), ()⟩ :: (t ++ tr))
  | melted {b : MeltBlanks} {answer : Outcome MeltQuote} {news : List Notice} {t tr : List Exchange}
    (ht : Emission .changeOutputsCreated (.blanks b) own.blanks t) (h : Heard own news tr) :
    Heard own (.blanks b :: news) (t ++ ⟨.call (.melt b.payload), answer⟩ :: tr)

namespace Program

variable {α β : Type}

/-! ## Programs that announce -/

/-- Reserves counters, and says so. -/
def reserving (keyset : Json) (n : Int) (own : Option Listener) (next : CounterBlock → Program α) :
    Program α := do
  let block ← reserve keyset n
  record (.countersReserved keyset block.count)
  announce .countersReserved (.reserved ⟨keyset, block⟩) own
  next block

/-- Says that it is about to melt, and does so. -/
def melting (b : MeltBlanks) (own : Option Listener) (next : Outcome MeltQuote → Program α) :
    Program α := do
  announce .changeOutputsCreated (.blanks b) own
  next (← (call (.melt b.payload)).attempt)

/-- Programs that have listeners for nothing but news of these two kinds. -/
inductive Announces : (OwnListeners → Program α) → Prop where
  | done (r : Outcome α) : Announces fun _ => .done r
  | ask {c : Command} {next : OwnListeners → c.Answer → Program α} (hc : c.Plain)
    (h : ∀ a, Announces fun own => next own a) : Announces fun own => .ask c (next own)
  | reserving (keyset : Json) (n : Int) {next : OwnListeners → CounterBlock → Program α}
    (h : ∀ block, Announces fun own => next own block) :
    Announces fun own => reserving keyset n own.reserved (next own)
  | melting (b : MeltBlanks) {next : OwnListeners → Outcome MeltQuote → Program α}
    (h : ∀ answer, Announces fun own => next own answer) :
    Announces fun own => melting b own.blanks (next own)

theorem announces_of_only {p : Program α} (h : p.Only Command.Plain) : Announces fun _ => p := by
  induction p with
  | done r => exact .done r
  | ask c next ih => exact .ask h.1 fun a => ih a (h.2 a)

theorem announces_lift (r : Outcome α) : Announces fun _ => (liftM r : Program α) := .done r

theorem announces_fail (e : WalletError) : Announces fun _ => (fail e : Program α) := .done _

theorem announces_pure (a : α) : Announces fun _ => (pure a : Program α) := .done _

theorem Announces.bind {p : OwnListeners → Program α} {f : OwnListeners → α → Program β}
    (hp : Announces p) (hf : ∀ a, Announces fun own => f own a) :
    Announces fun own => p own >>= f own := by
  induction hp with
  | done r =>
    cases r with
    | ok a => exact hf a
    | error e => exact .done (.error e)
  | ask hc _ ih => exact .ask hc ih
  | reserving keyset n _ ih =>
    simp only [Program.reserving, bind_assoc]
    exact .reserving keyset n ih
  | melting b _ ih =>
    simp only [Program.melting, bind_assoc]
    exact .melting b ih

theorem Announces.ite {c : Prop} [Decidable c] {p q : OwnListeners → Program α} (hp : Announces p)
    (hq : Announces q) : Announces fun own => if c then p own else q own := by
  split
  · exact hp
  · exact hq

/-! ## Runs on worlds that listeners tell apart -/

/-- Handlers that answer the same on related states, listeners apart. These leave no trace
in what is related. -/
structure Agree {σ τ : Type} (handle : (c : Command) → σ → c.Answer × σ)
    (handle' : (c : Command) → τ → c.Answer × τ) (R : σ → τ → Prop) : Prop where
  same : ∀ {c s t}, c.listens = false → R s t →
    (handle c s).1 = (handle' c t).1 ∧ R (handle c s).2 (handle' c t).2
  left : ∀ {c s t}, c.listens = true → R s t → R (handle c s).2 t
  right : ∀ {c s t}, c.listens = true → R s t → R s (handle' c t).2

/-- On related states the programs end the same and in related states, and what they ask for
beside the news is the same and is answered the same. -/
def Abreast {σ τ : Type} (handle : (c : Command) → σ → c.Answer × σ)
    (handle' : (c : Command) → τ → c.Answer × τ) (R : σ → τ → Prop) (p q : Program α) : Prop :=
  ∀ ⦃s t⦄, R s t → (p.run handle s).1 = (q.run handle' t).1 ∧ R (p.run handle s).2 (q.run handle' t).2 ∧
    unheard (p.history handle s) = unheard (q.history handle' t)

section Runs

variable {σ τ : Type} {handle : (c : Command) → σ → c.Answer × σ}
  {handle' : (c : Command) → τ → c.Answer × τ} {R : σ → τ → Prop} {s : σ} {t : τ}

theorem abreast_done (r : Outcome α) : Abreast handle handle' R (.done r) (.done r) :=
  fun _ _ hR => ⟨rfl, hR, rfl⟩

theorem Abreast.bind {p q : Program α} {f g : α → Program β} (h : Abreast handle handle' R p q)
    (hfg : ∀ a, Abreast handle handle' R (f a) (g a)) : Abreast handle handle' R (p >>= f) (q >>= g) := by
  intro s t hR
  obtain ⟨hresult, hstate, hunheard⟩ := h hR
  cases hq : (q.run handle' t).1 with
  | ok a =>
    have hp := hresult.trans hq
    rw [run_bind_ok hp, run_bind_ok hq, history_bind_ok hp, history_bind_ok hq, unheard_append,
      unheard_append, hunheard]
    obtain ⟨hresult, hstate, hrest⟩ := hfg a hstate
    exact ⟨hresult, hstate, congrArg _ hrest⟩
  | error e =>
    have hp := hresult.trans hq
    rw [run_bind_error hp, run_bind_error hq, history_bind_error hp, history_bind_error hq]
    exact ⟨rfl, hstate, hunheard⟩

theorem Agree.symm (H : Agree handle handle' R) : Agree handle' handle fun t s => R s t where
  same hc hR := (H.same hc hR).imp Eq.symm id
  left := H.right
  right := H.left

/-- However much listeners are told, nothing else notices. -/
theorem Agree.run_left (H : Agree handle handle' R) {p : Program α}
    (hp : p.Only fun c => c.listens = true) (hR : R s t) : R (p.run handle s).2 t := by
  induction p generalizing s with
  | done r => exact hR
  | ask c next ih => exact ih _ (hp.2 _) (H.left hp.1 hR)

theorem Agree.abreast_ask (H : Agree handle handle' R) {c : Command} {next next' : c.Answer → Program α}
    (hc : c.listens = false) (h : ∀ a, Abreast handle handle' R (next a) (next' a)) :
    Abreast handle handle' R (.ask c next) (.ask c next') := by
  intro s t hR
  obtain ⟨hanswer, hR⟩ := H.same hc hR
  obtain ⟨hresult, hstate, hrest⟩ := h (handle' c t).1 hR
  simp only [Program.run, Program.history, hanswer]
  rw [unheard_cons hc, unheard_cons hc]
  exact ⟨hresult, hstate, congrArg _ hrest⟩

theorem listens_announce (topic : Topic) (notice : Notice) (own : Option Listener) :
    (announce topic notice own).Only fun c => c.listens = true := by
  have htell (l : Listener) : (tell topic notice l).Only fun c => c.listens = true := by
    refine Only.bind (Only.command rfl) fun took => ?_
    split
    · exact Only.pure ()
    · exact Only.command rfl
  refine (Only.forM htell _).bind fun _ => ?_
  exact Only.bind (Only.command rfl) fun ls => Only.forM htell ls

/-- An announcement is all there is to hear of one, and it ends well. -/
theorem emission_run (handle : (c : Command) → σ → c.Answer × σ) (s : σ) (topic : Topic) (notice : Notice)
    (own : Option Listener) : ((announce topic notice own).run handle s).1 = .ok () ∧
      Emission topic notice own ((announce topic notice own).history handle s) :=
  yields_announce (yields_run handle _ s)

theorem Agree.abreast_announce (H : Agree handle handle' R) (topic : Topic) (notice : Notice)
    (own own' : Option Listener) :
    Abreast handle handle' R (announce topic notice own) (announce topic notice own') := by
  intro s t hR
  obtain ⟨hresult, hemission⟩ := emission_run handle s topic notice own
  obtain ⟨hresult', hemission'⟩ := emission_run handle' t topic notice own'
  refine ⟨hresult.trans hresult'.symm, ?_, hemission.unheard.trans hemission'.unheard.symm⟩
  have hleft := H.run_left (listens_announce topic notice own) hR
  exact H.symm.run_left (listens_announce topic notice own') hleft

/-- Whoever listens, the programs end the same, and what they ask for beside the news is
the same and is answered the same. -/
theorem Announces.run {p : OwnListeners → Program α} (hp : Announces p) (H : Agree handle handle' R)
    (own own' : OwnListeners) : Abreast handle handle' R (p own) (p own') := by
  induction hp with
  | done r => exact abreast_done r
  | ask hc _ ih => exact H.abreast_ask hc.unheard ih
  | reserving keyset n _ ih =>
    have hreserve : Abreast handle handle' R (reserve keyset n) (reserve keyset n) :=
      H.abreast_ask rfl abreast_done
    refine hreserve.bind fun block => ?_
    refine (H.abreast_ask rfl fun _ => abreast_done _).bind fun _ => ?_
    exact (H.abreast_announce ..).bind fun _ => ih block
  | melting b _ ih =>
    refine (H.abreast_announce ..).bind fun _ => ?_
    exact (H.abreast_ask rfl fun answer => abreast_done (.ok answer)).bind ih

end Runs

/-! ## What is heard in a run -/

section Heard

variable {own own' : OwnListeners} {tr tr' : List Exchange} {r r' : Outcome α}

theorem yields_reserving {keyset : Json} {n : Int} {own : Option Listener}
    {next : CounterBlock → Program α} (h : (reserving keyset n own next).Yields tr r) :
    (∃ e, tr = [⟨.reserve keyset n, .error e⟩]) ∨ ∃ block t t',
      tr = ⟨.reserve keyset n, .ok block⟩ :: ⟨.record (.countersReserved keyset block.count), ()⟩ :: (t ++ t') ∧
        Emission .countersReserved (.reserved ⟨keyset, block⟩) own t ∧ (next block).Yields t' r := by
  obtain ⟨(answer : Outcome CounterBlock), _, rfl, hgranted⟩ := yields_ask.mp h
  cases answer with
  | error e =>
    obtain ⟨rfl, -⟩ := yields_done.mp hgranted
    exact .inl ⟨e, rfl⟩
  | ok block =>
    obtain ⟨_, tr', rfl, hrecorded⟩ := yields_ask.mp hgranted
    change (do announce .countersReserved (.reserved ⟨keyset, block⟩) own; next block).Yields tr' r at hrecorded
    obtain ⟨e, hannounce, -⟩ | ⟨_, t, t', rfl, hannounce, hnext⟩ := yields_bind.mp hrecorded
    · cases (yields_announce hannounce).1
    · exact .inr ⟨block, t, t', rfl, (yields_announce hannounce).2, hnext⟩

theorem yields_melting {b : MeltBlanks} {own : Option Listener} {next : Outcome MeltQuote → Program α}
    (h : (melting b own next).Yields tr r) :
    ∃ t answer t', tr = t ++ ⟨.call (.melt b.payload), answer⟩ :: t' ∧
      Emission .changeOutputsCreated (.blanks b) own t ∧ (next answer).Yields t' r := by
  obtain ⟨e, hannounce, -⟩ | ⟨_, t, _, rfl, hannounce, hcall⟩ := yields_bind.mp h
  · cases (yields_announce hannounce).1
  · obtain ⟨answer, t', rfl, hnext⟩ := yields_ask.mp hcall
    exact ⟨t, answer, t', rfl, (yields_announce hannounce).2, hnext⟩

/-- Runs that are the same beside the news have the same news. -/
theorem Announces.heard {p : OwnListeners → Program α} (hp : Announces p) (h : (p own).Yields tr r)
    (h' : (p own').Yields tr' r') (hsame : unheard tr = unheard tr') :
    ∃ news, Heard own news tr ∧ Heard own' news tr' := by
  induction hp generalizing tr tr' with
  | done r =>
    obtain ⟨rfl, -⟩ := yields_done.mp h
    obtain ⟨rfl, -⟩ := yields_done.mp h'
    exact ⟨[], .nil, .nil⟩
  | ask hc _ ih =>
    obtain ⟨a, t, rfl, hnext⟩ := yields_ask.mp h
    obtain ⟨a', t', rfl, hnext'⟩ := yields_ask.mp h'
    rw [unheard_cons hc.unheard, unheard_cons hc.unheard] at hsame
    obtain ⟨hanswer, hrest⟩ := List.cons.inj hsame
    cases hanswer
    obtain ⟨news, hheard, hheard'⟩ := ih a hnext hnext' hrest
    exact ⟨news, .plain (hc.exchange a) hheard, .plain (hc.exchange a) hheard'⟩
  | reserving keyset n _ ih =>
    obtain ⟨e, rfl⟩ | ⟨block, t₁, t₂, rfl, ht, hnext⟩ := yields_reserving h <;>
      obtain ⟨e', rfl⟩ | ⟨block', t₁', t₂', rfl, ht', hnext'⟩ := yields_reserving h'
    · exact ⟨[], .plain trivial .nil, .plain trivial .nil⟩
    · cases (List.cons.inj hsame).1
    · cases (List.cons.inj hsame).1
    · obtain ⟨hanswer, hrecorded⟩ := List.cons.inj hsame
      cases hanswer
      have hrest := (List.cons.inj hrecorded).2
      change unheard (t₁ ++ t₂) = unheard (t₁' ++ t₂') at hrest
      rw [unheard_append, unheard_append, ht.unheard, ht'.unheard] at hrest
      obtain ⟨news, hheard, hheard'⟩ := ih block hnext hnext' hrest
      exact ⟨.reserved ⟨keyset, block⟩ :: news, .reserved ht hheard, .reserved ht' hheard'⟩
  | melting b _ ih =>
    obtain ⟨t₁, answer, t₂, rfl, ht, hnext⟩ := yields_melting h
    obtain ⟨t₁', answer', t₂', rfl, ht', hnext'⟩ := yields_melting h'
    rw [unheard_append, unheard_append, ht.unheard, ht'.unheard] at hsame
    obtain ⟨hanswer, hrest⟩ := List.cons.inj hsame
    cases hanswer
    obtain ⟨news, hheard, hheard'⟩ := ih answer hnext hnext' hrest
    exact ⟨.blanks b :: news, .melted ht hheard, .melted ht' hheard'⟩

end Heard

/-- Whoever is told of what the program announces, it makes no difference to anything else: on
worlds that only listeners tell apart the program ends the same, leaves worlds that only listeners
tell apart, and has the same exchanges with them beside the news. The news is the same, too.
Whatever the world, counters that are granted and melts are announced, each of them to everyone,
and nothing else is. -/
structure Undisturbed (p : OwnListeners → Program α) : Prop where
  run : ∀ {σ τ : Type} {handle : (c : Command) → σ → c.Answer × σ}
    {handle' : (c : Command) → τ → c.Answer × τ} {R : σ → τ → Prop}, Agree handle handle' R →
    ∀ own own', Abreast handle handle' R (p own) (p own')
  news : ∀ {σ τ : Type} {handle : (c : Command) → σ → c.Answer × σ}
    {handle' : (c : Command) → τ → c.Answer × τ} {R : σ → τ → Prop}, Agree handle handle' R →
    ∀ s t, R s t → ∀ own own', ∃ news, Heard own news ((p own).history handle s) ∧
      Heard own' news ((p own').history handle' t)
  heard : ∀ {σ : Type} (handle : (c : Command) → σ → c.Answer × σ) (s : σ) (own : OwnListeners),
    ∃ news, Heard own news ((p own).history handle s)

theorem Announces.undisturbed {p : OwnListeners → Program α} (h : Announces p) : Undisturbed p where
  run H own own' := h.run H own own'
  news {_ _ handle handle' _} H s t hR own own' :=
    h.heard (yields_run handle (p own) s) (yields_run handle' (p own') t) (h.run H own own' hR).2.2
  heard handle s own := by
    have hyields := yields_run handle (p own) s
    obtain ⟨news, hheard, -⟩ := h.heard hyields hyields rfl
    exact ⟨news, hheard⟩

end Program

end Ecash
