import Multiplex.Proofs.Transit

/-!
What the writer of one end takes is what the reader of the other handles, frame by frame: however
the frames are gathered into batches, and however the pipe cuts their bytes.
-/

namespace Multiplex

namespace Duplex

open Connection

theorem accounted_run (s : Setup) (events : List (Side × Event)) (side : Side)
    (hn : ((start s).run events).Numbered) :
    (((start s).run events).connection side).Accounted := by
  have hd := deeds_run s events side
  cases side
  · exact (accounted_fresh _ _ _).deeds hd (sound_fresh _ _ _) hn.1
  · exact (accounted_fresh _ _ _).deeds hd (sound_fresh _ _ _) hn.2

/-- The frames that a reader handles are the first of those that the other writer took, and the rest
is on the way while both ends are open. Of what was queued at the writer, each frame waits, was
taken once and in turn, was taken back with its stream, or was lost with the connection. -/
theorem carries_frames (s : Setup) (events : List (Side × Event)) (side : Side)
    (hn : ((start s).run events).Numbered) :
    let x := (start s).run events
    let writer := x.connection side
    let reader := x.connection side.other
    reader.journal.hearing <+: writer.journal.wire ∧
      (x.Open side → x.Open side.other →
        writer.journal.wire = reader.journal.hearing ++ x.inFlight side) ∧
      ∃ control data, writer.Account control data := by
  intro x writer reader
  obtain ⟨w,v,ha,hw⟩ := (coherent_run s events hn).facing side
  refine ⟨⟨w,ha.forth.symm⟩,fun ho ho' => ?_,accounted_run s events side hn⟩
  rw [← (hw ho ho').1]
  exact ha.forth

/-- One end speaks before the other has read its settings. Of what it queues, the frame of the
second stream is taken back. The pipe shows the settings with a part of the first frame, and then a
part of the second. -/
def headlong : List (Side × Event) :=
  [(.near, .connect 0), (.far, .connect 0), (.near, .pull 0 0 64), (.far, .pull 0 0 64),
    (.near, .pull 0 64 0), (.near, .create .unidirectional), (.near, .create .unidirectional),
    (.near, .call false (.write 0 [1, 2, 3])), (.near, .call false (.write 1 [4])),
    (.near, .reset 1 7), (.near, .call false (.finish 0)), (.near, .push 128), (.near, .push 128),
    (.far, .pull 0 70 0), (.far, .pull 0 20 0)]

theorem carries_frames_headlong :
    ((start .plain).run headlong).Numbered ∧
      (((start .plain).run headlong).connection .far).journal.hearing = [.reset ⟨6⟩ 7] ∧
      (((start .plain).run headlong).connection .near).journal.wire =
        .reset ⟨6⟩ 7 :: [.stream ⟨2⟩ false [1, 2, 3], .stream ⟨2⟩ true []] := by
  have hn : ((start .plain).run headlong).Numbered := by decide +kernel
  have hh : (((start .plain).run headlong).connection .far).journal.hearing = [.reset ⟨6⟩ 7] := by
    decide +kernel
  have hw : ((start .plain).run headlong).inFlight .near =
      [.stream ⟨2⟩ false [1, 2, 3], .stream ⟨2⟩ true []] := by
    decide +kernel
  have hopen := (carries_frames .plain headlong .near hn).2.1 (.inl (by decide +kernel))
    (.inl (by decide +kernel))
  refine ⟨hn,hh,?_⟩
  rw [hopen,Side.other,hh,hw]
  rfl

end Duplex

end Multiplex
