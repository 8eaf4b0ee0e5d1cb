import Multiplex.Proofs.Conduct

/-!
The table of streams in use, at an end whose peer may send anything.
-/

namespace Multiplex

namespace Connection

variable {c : Connection} {id : StreamId} {i : Nat}

theorem Sound.table_nodup (h : c.Sound) : (c.table.map (·.1)).Nodup := by
  refine List.Nodup.map_on ?_ h.distinct
  rintro ⟨id,i⟩ hi ⟨id',j⟩ hj rfl
  obtain ⟨s,hs,hid,-⟩ := h.iff.mp hi
  obtain ⟨t,ht,hid',-⟩ := h.iff.mp hj
  obtain rfl := h.unique hs ht (by simp [hid]) (hid.trans hid'.symm)
  rfl

theorem Sound.entry (h : c.Sound) (hm : (id, i) ∈ c.table) :
    ∃ s, c.streams[i]? = some s ∧ s.id = some id ∧ s.released = false ∧
      (s.localDone && s.remoteDone) = false ∧
      id.sequence.toNat <
        (if id.initiator = c.role then c.nextLocal else c.nextRemote).get id.direction := by
  obtain ⟨s,hi,hid,hl⟩ := h.iff.mp hm
  have hh := h.held hi hid
  refine ⟨s,hi,hid,hl,hh.sound.undone hl,?_⟩
  have hb := hh.below
  rw [hh.remote] at hb
  by_cases hr : id.initiator = c.role <;> simpa [hr] using hb

/-- The counter of an entry is not zero, so that taking the entry out lowers it. -/
theorem Sound.active_pos (h : c.Sound) (hm : (id, i) ∈ c.table) :
    0 < (if id.initiator = c.role then c.activeLocal else c.activeRemote).get id.direction := by
  have hc := h.counted (decide (id.initiator ≠ c.role)) id.direction
  have hpos : 0 < c.table.countP (counts c.role (decide (id.initiator ≠ c.role)) id.direction) :=
    List.countP_pos_iff.mpr ⟨_,hm,by simp [counts]⟩
  rw [← hc] at hpos
  by_cases hr : id.initiator = c.role <;> simpa [hr] using hpos

theorem Sound.active_eq (h : c.Sound) (d : Direction) :
    c.activeLocal.get d = c.table.countP (fun e => e.1.initiator = c.role ∧ e.1.direction = d) ∧
      c.activeRemote.get d =
        c.table.countP (fun e => e.1.initiator ≠ c.role ∧ e.1.direction = d) := by
  constructor
  · refine (h.counted false d).trans (List.countP_congr fun e _ => ?_)
    simp [counts]
  · refine (h.counted true d).trans (List.countP_congr fun e _ => ?_)
    simp [counts]

end Connection

namespace Station

open Connection

/-- The table is right at every time, whatever the peer sends, and a stream that has left it stays
away at every later time. -/
theorem table_faithful (role : Role) (options : Options) (codes : CodeSpace) (channel : Channel)
    (steps more : List Step)
    (hn : ((fresh role options codes channel).run (steps ++ more)).connection.Numbered) :
    let c := ((fresh role options codes channel).run steps).connection
    let later := ((fresh role options codes channel).run (steps ++ more)).connection
    (c.table.map (·.1)).Nodup ∧
      (∀ (id : StreamId) (i : Nat), (id, i) ∈ c.table →
        (∃ s, c.streams[i]? = some s ∧ s.id = some id ∧ s.released = false ∧
          (s.localDone && s.remoteDone) = false ∧
          id.sequence.toNat <
            (if id.initiator = c.role then c.nextLocal else c.nextRemote).get id.direction) ∧
        0 < (if id.initiator = c.role then c.activeLocal else c.activeRemote).get id.direction) ∧
      (∀ d, c.activeLocal.get d =
            c.table.countP (fun e => e.1.initiator = c.role ∧ e.1.direction = d) ∧
          c.activeRemote.get d =
            c.table.countP (fun e => e.1.initiator ≠ c.role ∧ e.1.direction = d) ∧
          c.activeLocal.get d ≤ (c.peer.maxStreams d).toNat ∧
          c.activeRemote.get d ≤ (options.maxStreams d).toNat) ∧
      ∀ (i : Nat) (s : Stream), c.streams[i]? = some s → s.released = true →
        (∃ s', later.streams[i]? = some s' ∧ s'.id = s.id ∧ s'.released = true) ∧
          ∀ id, (id, i) ∉ later.table := by
  intro c later
  have hfresh := Fresh.intro role options codes channel
  have hc : c.Sound := hfresh.sound (hfresh.numbered hn)
  have hl : later.Sound := hfresh.sound hn
  have ho : c.options = options := (hfresh.deeds steps).later.options
  refine ⟨hc.table_nodup,fun id i hm => ⟨hc.entry hm,hc.active_pos hm⟩,fun d => ?_,?_⟩
  · refine ⟨(hc.active_eq d).1,(hc.active_eq d).2,hc.within d,?_⟩
    rw [← ho]
    exact hc.admitted d
  · intro i s hi hr
    obtain ⟨s',hi',hid',hr'⟩ := (hfresh.deeds_more steps more).retires hc hn hi hr
    refine ⟨⟨s',hi',hid',hr'⟩,fun id hm => ?_⟩
    obtain ⟨t,ht,-,hlive⟩ := hl.iff.mp hm
    cases hi'.symm.trans ht
    cases hr'.symm.trans hlive

/-- The peer opens two streams and ends one of them at once. -/
def visits : List Step :=
  meeting {} ++ [.hearing [.stream ⟨3⟩ false [1], .stream ⟨7⟩ true [2]]]

/-- The peer goes on with the stream that it has ended. -/
theorem table_faithful_visits :
    let later :=
      (fresh .client {} .direct .plain).run (visits ++ [.hearing [.stream ⟨7⟩ false [3]]])
    later.connection.Numbered ∧
      ((fresh .client {} .direct .plain).run visits).connection.table = [(⟨3⟩, 0)] ∧
      (((fresh .client {} .direct .plain).run visits).connection.streams[1]?.map (·.released)) =
        some true ∧
      ∀ id, (id, 1) ∉ later.connection.table := by
  intro later
  have hn : later.connection.Numbered := by decide +kernel
  have hr :
      (((fresh .client {} .direct .plain).run visits).connection.streams[1]?.map (·.released)) =
      some true := by decide +kernel
  obtain ⟨s,hi,hs⟩ := Option.map_eq_some_iff.mp hr
  have h := table_faithful .client {} .direct .plain visits [.hearing [.stream ⟨7⟩ false [3]]] hn
  exact ⟨hn,by decide +kernel,hr,(h.2.2.2 1 s hi hs).2⟩

end Station

end Multiplex
