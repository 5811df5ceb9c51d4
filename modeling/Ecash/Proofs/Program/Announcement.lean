import Ecash.Proofs.Program.Passive

/-!
# Announcements

News goes to the listener of the call and then to every subscribed listener, in the order
of subscription (`Emission`). A listener that fails keeps none of the others from being told,
and does not end the program (`Program.yields_announce`).
-/
namespace Ecash

/-- Whom a command tells, and what. -/
def Command.told? : Command → Option (Listener × Topic × Notice)
  | .tell listener topic notice => some (listener, topic, notice)
  | _ => none

/-- What listeners have been told, in order. -/
def told (tr : List Exchange) : List (Listener × Topic × Notice) := tr.filterMap (·.command.told?)

theorem told_append (t₁ t₂ : List Exchange) : told (t₁ ++ t₂) = told t₁ ++ told t₂ :=
  List.filterMap_append

/-- A listener is told. If it fails there is a warning, and only then. -/
def telling (topic : Topic) (notice : Notice) (reaction : Listener × Bool) : List Exchange :=
  ⟨.tell reaction.1 topic notice, reaction.2⟩ ::
    if reaction.2 then [] else [⟨.warn (.listenerFailed topic), ()⟩]

/-- News that is passed on: the listener of the call is told, then all who are subscribed by
then, in order. Each is told once and the same, however those before it reacted. -/
def Emission (topic : Topic) (notice : Notice) (own : Option Listener) (tr : List Exchange) : Prop :=
  ∃ first rest : List (Listener × Bool), first.map Prod.fst = own.toList ∧
    tr = first.flatMap (telling topic notice) ++
      ⟨.listeners topic, rest.map Prod.fst⟩ :: rest.flatMap (telling topic notice)

/-- The news has been passed on, and nothing else has happened: the listener of the call
and all subscribers have been told, each once. -/
structure Announced (topic : Topic) (notice : Notice) (own : Option Listener)
    (tr : List Exchange) : Prop where
  only : ∀ x ∈ tr, x.command.Announcing notice
  told : ∃ subscribers, ⟨.listeners topic, subscribers⟩ ∈ tr ∧
    told tr = (own.toList ++ subscribers).map fun l => (l, topic, notice)

variable {topic : Topic} {notice : Notice} {own : Option Listener} {tr : List Exchange}

/-- A listener is told whether it fails or not. -/
theorem told_telling (reactions : List (Listener × Bool)) :
    told (reactions.flatMap (telling topic notice)) =
      (reactions.map Prod.fst).map fun l => (l, topic, notice) := by
  induction reactions with
  | nil => rfl
  | cons x reactions ih =>
    have hone : told (telling topic notice x) = [(x.1, topic, notice)] := by
      obtain ⟨l, took⟩ := x
      cases took <;> rfl
    rw [List.flatMap_cons, told_append, hone, ih]
    rfl

theorem Emission.told (h : Emission topic notice own tr) :
    ∃ subscribers, ⟨.listeners topic, subscribers⟩ ∈ tr ∧
      told tr = (own.toList ++ subscribers).map fun l => (l, topic, notice) := by
  obtain ⟨first, rest, hfirst, rfl⟩ := h
  refine ⟨rest.map Prod.fst, List.mem_append_right _ List.mem_cons_self, ?_⟩
  have hlisteners (t : List Exchange) :
      Ecash.told (⟨.listeners topic, rest.map Prod.fst⟩ :: t) = Ecash.told t := rfl
  rw [told_append, hlisteners, told_telling, told_telling, hfirst, List.map_append]

namespace Program

variable {r : Outcome Unit}

theorem yields_tell {l : Listener} (h : (tell topic notice l).Yields tr r) :
    r = .ok () ∧ ∃ took, tr = telling topic notice (l, took) := by
  obtain ⟨(took : Bool), t, rfl, hrest⟩ := yields_ask.mp h
  cases took with
  | true =>
    obtain ⟨rfl, rfl⟩ := yields_done.mp hrest
    exact ⟨rfl, true, rfl⟩
  | false =>
    obtain ⟨_, t', rfl, hdone⟩ := yields_ask.mp hrest
    obtain ⟨rfl, rfl⟩ := yields_done.mp hdone
    exact ⟨rfl, false, rfl⟩

theorem yields_forM_tell {ls : List Listener} (h : (ls.forM (tell topic notice)).Yields tr r) :
    r = .ok () ∧ ∃ reactions : List (Listener × Bool), reactions.map Prod.fst = ls ∧
      tr = reactions.flatMap (telling topic notice) := by
  induction ls generalizing tr with
  | nil =>
    obtain ⟨rfl, rfl⟩ := yields_done.mp h
    exact ⟨rfl, [], rfl, rfl⟩
  | cons l ls ih =>
    obtain ⟨e, hl, -⟩ | ⟨_, t₁, t₂, rfl, hl, hls⟩ := yields_bind.mp h
    · cases (yields_tell hl).1
    · obtain ⟨-, took, rfl⟩ := yields_tell hl
      obtain ⟨hr, reactions, rfl, rfl⟩ := ih hls
      exact ⟨hr, (l, took) :: reactions, rfl, rfl⟩

/-- However listeners react, an announcement ends well and has reached all of them. -/
theorem yields_announce (h : (announce topic notice own).Yields tr r) :
    r = .ok () ∧ Emission topic notice own tr := by
  obtain ⟨e, hown, -⟩ | ⟨_, t₁, t₂, rfl, hown, hrest⟩ := yields_bind.mp h
  · cases (yields_forM_tell hown).1
  obtain ⟨(ls : List Listener), t₃, rfl, hls⟩ := yields_ask.mp hrest
  obtain ⟨-, first, hfirst, rfl⟩ := yields_forM_tell hown
  obtain ⟨hr, rest, rfl, rfl⟩ := yields_forM_tell hls
  exact ⟨hr, first, rest, hfirst, rfl⟩

theorem announced (h : (announce topic notice own).Yields tr r) : Announced topic notice own tr :=
  ⟨(only_announce topic notice own).history h, (yields_announce h).2.told⟩

end Program

end Ecash
