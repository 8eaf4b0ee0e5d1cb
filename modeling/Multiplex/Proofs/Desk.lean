import Multiplex.Proofs.ProcessCalls
import Multiplex.Proofs.Pausing

/-!
An end at which a process works on one stream, while anything else happens there. Only the process
itself uses its stream.
-/

namespace Multiplex

namespace Rpc

open Connection

section Readers

variable {α β : Type} {i : Nat} {c c' : Connection} {p : Process α} {work : Halted α}
  {goal : ReadGoal} {w : Wait} {m : Moment} {s : Scene}

/-- Whether the stream at place `i` is somebody's. -/
structure Owned (c : Connection) (i : Nat) : Prop where
  accepted : i ∉ c.acceptQueue
  stream : ∃ s, c.streams[i]? = some s

theorem Owned.tells (h : Owned c i) (ht : TellsAll c c') : Owned c' i := by
  obtain ⟨s,hs⟩ := h.stream
  refine ⟨fun hq => ?_,?_⟩
  · rcases ht.unaccepted hq with hx | hx
    · exact h.accepted hx
    · cases hs.symm.trans hx
  · obtain ⟨s',hs',-⟩ := ht.streams hs
    exact ⟨s',hs'⟩

/-- Whether a process does nothing but read. -/
inductive Process.Reads : Process α → Prop
  | done (a : α) : Reads (.done a)
  | read {goal : ReadGoal} {next : Except Failure Answer → Process α} (more : ∀ r, Reads (next r)) :
      Reads (.call (.read goal) next)

theorem Process.Reads.bind (h : p.Reads) {f : α → Process β} (hf : ∀ a, (f a).Reads) :
    (p.bind f).Reads := by
  induction h with
  | done a => exact hf a
  | read _ ih => exact .read ih

theorem Process.Reads.andThen {p : Process (Except Error α)} (h : p.Reads)
    {f : α → Process (Except Error β)} (hf : ∀ a, (f a).Reads) : (p.andThen f).Reads := by
  apply h.bind
  rintro (e | a)
  · exact .done _
  · exact hf a

/-- Whether a process that does nothing but read has taken all that there was. -/
inductive Halted.Rests (c : Connection) (i : Nat) : Halted α → Prop
  | done (a : α) : Rests c i (.done a)
  | calling {goal : ReadGoal} {next : Except Failure Answer → Process α}
      (still : c.Still (.data i goal)) (more : ∀ r, (next r).Reads) :
      Rests c i (.calling ⟨.data i goal, c.signal (.data i goal)⟩ next)

/-- Whether a process that does nothing but read has taken all that there was, or is told that there
is more. -/
inductive Halted.Attends (c : Connection) (i : Nat) : Halted α → Prop
  | done (a : α) : Attends c i (.done a)
  | calling {goal : ReadGoal} {seen : Nat} {next : Except Failure Answer → Process α}
      (heeded : Station.Heeded c ⟨.data i goal, seen⟩) (more : ∀ r, (next r).Reads) :
      Attends c i (.calling ⟨.data i goal, seen⟩ next)

theorem Halted.Rests.attends (h : work.Rests c i) (hc : Owned c i) : work.Attends c i := by
  cases h with
  | done a => exact .done a
  | calling still more =>
    have hstream {j : Nat} (hj : some i = some j) : j = i := (Option.some.inj hj).symm
    refine .calling ⟨le_rfl,fun _ => still,fun j hj => ?_,fun j hj => ?_⟩ more
    · rw [hstream hj]
      exact hc.accepted
    · rw [hstream hj]
      exact hc.stream

theorem Halted.Attends.tells (h : work.Attends c i) (ht : TellsAll c c') : work.Attends c' i := by
  cases h with
  | done a => exact .done a
  | calling heeded more => exact .calling (heeded.tells ht) more

theorem data_of_readOn {fuel : Nat} (h : c.readOn false i fuel goal = (.wait w, c')) :
    ∃ goal', w = .data i goal' := by
  induction fuel generalizing c goal with
  | zero => exact ⟨goal,(suspend_eq_wait h).1⟩
  | succ fuel ih =>
    unfold readOn at h
    split at h
    · exact ⟨_,(suspend_eq_wait h).1⟩
    · cases h
    · cases h
    · cases h
    · cases h
    · split at h
      · cases h
      · exact ih h
    · cases h
    · exact ih h

theorem data_of_read (h : c.call false (.read i goal) = (.wait w, c')) :
    ∃ goal', w = .data i goal' := by
  rcases goal with (_ | max) | max | ⟨_ | missing,done⟩ | done
  · cases h
  · exact data_of_readOn h
  · exact data_of_readOn h
  · cases h
  · exact data_of_readOn h
  · exact data_of_readOn h

theorem Process.Reads.run (h : p.Reads) (hm : m.givenUp = false) (hs : s.stream = i) :
    TellsAll s.connection (p.run m s).2.connection ∧
      (p.run m s).1.Rests (p.run m s).2.connection i := by
  induction h generalizing s with
  | done a => exact ⟨.refl _ _ _,.done a⟩
  | @read goal next more ih =>
    have htells := tells_call s.connection false (.read i goal)
    rw [Process.run_call,hm,hs]
    dsimp only [StreamCall.on]
    cases hr : s.connection.call false (.read i goal) with
    | mk o c =>
      rw [hr] at htells
      cases o with
      | done r =>
        obtain ⟨ht,hrests⟩ := ih r (s := { s with connection := c }) hs
        exact ⟨htells.trans ht,hrests⟩
      | wait w =>
        obtain ⟨goal',rfl⟩ := data_of_read hr
        exact ⟨htells,.calling (still_call hr).1 more⟩

/-- A process that reads looks again. If it does not, nothing has come. -/
theorem Halted.Attends.resume (h : work.Attends c i) (hm : m.givenUp = false) (hs : s.stream = i)
    (hc : s.connection = c) :
    let r := (work.resume m s).getD (work, s)
    TellsAll c r.2.connection ∧ r.1.Rests r.2.connection i := by
  subst hc
  cases h with
  | done a => exact ⟨.refl _ _ _,.done a⟩
  | @calling goal seen next heeded more =>
    rw [Halted.resume_calling,hm]
    unfold wake
    split
    · have htells := tells_resume s.connection false (.data i goal)
      cases hr : s.connection.resume false (.data i goal) with
      | mk o c =>
        rw [hr] at htells
        cases o with
        | done r =>
          obtain ⟨ht,hrests⟩ := (more r).run hm (s := { s with connection := c }) hs
          exact ⟨htells.trans ht,hrests⟩
        | wait w =>
          obtain ⟨goal',rfl⟩ := data_of_readOn hr
          exact ⟨htells,.calling (still_resume _ hr).1 more⟩
    · rename_i hsame
      have hseen : s.connection.signal (.data i goal) = seen := by simpa using hsame
      subst hseen
      exact ⟨.refl _ _ _,.calling (heeded.still rfl) more⟩

end Readers

/-- An end at which a process works on a stream. -/
structure Desk (α : Type) where
  station : Station
  work : Halted α

/-- What can happen at such an end. -/
inductive Desk.Turn
  | step (t : Station.Step)
  /-- The process looks again. -/
  | look

namespace Desk

variable {α : Type} {i : Nat} {d : Desk α}

def moment : Moment := ⟨0, [], false⟩

def scene (s : Station) (i : Nat) : Scene := { connection := s.connection, stream := i }

def settle (s : Station) (r : Halted α × Scene) : Desk α := ⟨s.withConnection r.2.connection, r.1⟩

/-- A process sets out on the stream at place `i`. -/
def start (s : Station) (i : Nat) (p : Process α) : Desk α := settle s (p.run moment (scene s i))

/-- One turn. Nobody but the process uses its stream. -/
def turn (i : Nat) (d : Desk α) : Turn → Desk α
  | .step t => if d.station.uses i t.event then d else { d with station := d.station.step t }
  | .look => ((d.work.resume moment (scene d.station i)).map (settle d.station)).getD d

def run (i : Nat) (d : Desk α) (turns : List Turn) : Desk α := turns.foldl (turn i) d

theorem run_concat (d : Desk α) (turns : List Turn) (t : Turn) :
    d.run i (turns ++ [t]) = (d.run i turns).turn i t := by
  simp [run]

structure Settled (s : Station) : Prop where
  staged : s.endpoint.Staged
  deeds : ∃ start : Station, start.Fresh ∧ Deeds False start.connection s.connection

namespace Settled

variable {s : Station}

theorem sound (h : Settled s) (hn : s.connection.Numbered) : s.connection.Sound := by
  obtain ⟨start,hf,hd⟩ := h.deeds
  exact hd.sound (hf.connection sound_fresh) hn

theorem step (h : Settled s) (t : Station.Step) : Settled (s.step t) := by
  obtain ⟨start,hf,hd⟩ := h.deeds
  obtain ⟨hd',hst⟩ := Station.does_act h.staged t.out t.inn t.event
  exact ⟨hst,start,hf,hd.trans (hd'.mono False.elim)⟩

theorem drift (h : Settled s) {c : Connection} (hc : s.connection.Drifts c) :
    Settled (s.withConnection c) := by
  obtain ⟨start,hf,hd⟩ := h.deeds
  refine ⟨h.staged.fade hc.fades,start,hf,hd.trans ?_⟩
  induction hc with
  | refl => exact .refl
  | tail _ he ih =>
    have hdeeds : Deeds False _ _ := (he.mono fun hx => hx.2).deeds
    exact ih.trans hdeeds

end Settled

theorem drifts_start (s : Station) (i : Nat) (p : Process α) :
    s.connection.Drifts (start s i p).station.connection :=
  p.drifts_run moment (.refl _)

theorem drifts_look (d : Desk α) (i : Nat) :
    d.station.connection.Drifts (d.turn i .look).station.connection := by
  unfold turn
  cases hr : d.work.resume moment (scene d.station i) with
  | none => exact .refl _
  | some r => exact Halted.drifts_resume moment (.refl _) hr

theorem look_station (d : Desk α) (i : Nat) :
    (d.turn i .look).station = d.station.withConnection (d.turn i .look).station.connection := by
  unfold turn
  cases d.work.resume moment (scene d.station i) <;> rfl

theorem Settled.turn (h : Settled d.station) (t : Turn) : Settled (d.turn i t).station := by
  cases t with
  | step t =>
    unfold Desk.turn
    dsimp only
    split
    · exact h
    · exact h.step t
  | look =>
    rw [look_station]
    exact h.drift (d.drifts_look i)

theorem Settled.run (h : Settled d.station) (turns : List Turn) :
    Settled (d.run i turns).station := by
  induction turns using List.reverseRecOn with
  | nil => exact h
  | append_singleton turns t ih =>
    rw [run_concat]
    exact ih.turn t

section Readers

structure Attends (i : Nat) (d : Desk α) : Prop where
  owned : Owned d.station.connection i
  work : d.work.Attends d.station.connection i

theorem Attends.look (h : d.Attends i) :
    (d.turn i .look).work.Rests (d.turn i .look).station.connection i ∧
      (d.turn i .look).Attends i := by
  obtain ⟨ht,hrests⟩ := h.work.resume (m := moment) rfl (s := scene d.station i) rfl rfl
  have hrests' : (d.turn i .look).work.Rests (d.turn i .look).station.connection i := by
    unfold Desk.turn
    cases hr : d.work.resume moment (scene d.station i) <;> rw [hr] at hrests <;> exact hrests
  have ht' : TellsAll d.station.connection (d.turn i .look).station.connection := by
    unfold Desk.turn
    cases hr : d.work.resume moment (scene d.station i) <;> rw [hr] at ht <;> exact ht
  have howned := h.owned.tells ht'
  exact ⟨hrests',howned,hrests'.attends howned⟩

theorem Attends.turn (h : d.Attends i) (hd : Settled d.station) (hn : d.station.connection.Numbered)
    (t : Turn) : (d.turn i t).Attends i := by
  cases t with
  | step t =>
    unfold Desk.turn
    dsimp only
    split
    · exact h
    · have ht := Station.tells_act (hd.sound hn) hd.staged t.out t.inn t.event
      exact ⟨h.owned.tells ht,h.work.tells ht⟩
  | look => exact h.look.2

end Readers

section Sure

variable {safe : Post → Prop} {post : α → Post → Prop} {a : Standing} {d : Desk α} {s : Station}
  {p : Process α}

def Stands (i : Nat) (safe : Post → Prop) (post : α → Post → Prop) (d : Desk α) : Prop :=
  ∃ a, d.work.Sure i safe post ⟨a, false⟩ ∧ d.station.connection.Stands i a

/-- What a process says about a payload: it has none. -/
structure Plain (safe : Post → Prop) (post : α → Post → Prop) : Prop where
  safe : ∀ q, safe q → q.attached = false
  post : ∀ a q, post a q → q.attached = false

theorem at_scene (hs : s.connection.Stands i a) : (scene s i).At i ⟨a, false⟩ :=
  ⟨rfl,hs,by simp,fun _ => .inr rfl⟩

theorem stands_settle {c : Connection} {r : Halted α × Scene} {q : Post} (hp : Plain safe post)
    (hc : Course i safe post c r q) : (settle s r).Stands i safe post := by
  have hplain : q.attached = false := by
    have hsure := hc.sure
    obtain ⟨work,_⟩ := r
    cases work with
    | done a => exact hp.post a q hsure
    | calling | paused => exact hp.safe q hsure.1
  obtain ⟨a,b⟩ := q
  obtain rfl := hplain
  exact ⟨a,hc.sure,hc.scene.stands⟩

/-- Whatever happens, a process that minds what it does goes on doing so. -/
theorem Stands.turn (h : d.Stands i safe post) (hp : Plain safe post) (hs : Steady safe)
    (hl : ∀ a, Steady (post a)) (t : Turn) : (d.turn i t).Stands i safe post := by
  obtain ⟨a,hsure,hstands⟩ := h
  cases t with
  | step t =>
    unfold Desk.turn
    dsimp only
    split
    · exact ⟨a,hsure,hstands⟩
    · rename_i hu
      obtain ⟨a',hages,hstands'⟩ :=
        hstands.leaves (Station.leaves_act (Bool.eq_false_of_not_eq_true hu) t.out t.inn)
      exact ⟨a',hsure.ages ⟨hages,rfl⟩ hs hl,hstands'⟩
  | look =>
    unfold Desk.turn
    cases hr : d.work.resume moment (scene d.station i) with
    | none => exact ⟨a,hsure,hstands⟩
    | some r =>
      obtain ⟨q,hc⟩ := hsure.resume (at_scene hstands) rfl hr
      exact stands_settle hp hc

theorem Stands.run (h : d.Stands i safe post) (hp : Plain safe post) (hs : Steady safe)
    (hl : ∀ a, Steady (post a)) (turns : List Turn) : (d.run i turns).Stands i safe post := by
  induction turns using List.reverseRecOn with
  | nil => exact h
  | append_singleton turns t ih =>
    rw [run_concat]
    exact ih.turn hp hs hl t

inductive Outcome (safe : Post → Prop) (post : α → Post → Prop) (t : Stream) : Halted α → Prop
  | done {a : α} (h : post a ⟨t.standing, false⟩) : Outcome safe post t (.done a)
  | waiting {w : Suspended} {next : Except Failure Answer → Process α}
      (h : safe ⟨t.standing, false⟩) (nothing : t.inbound = []) (fin : t.finReceived = false) :
      Outcome safe post t (.calling w next)

end Sure

end Desk

end Rpc

end Multiplex
