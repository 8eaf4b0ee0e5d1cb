import Multiplex.Proofs.Looking
import Multiplex.Rpc.Process

/-!
Reading a payload in chunks, off a stream that has ended and out of memory.
-/

namespace Multiplex

variable {d : Bytes} {s : Stream}

def piece (d : Bytes) (m : Nat) : Option Bytes := if d = [] then none else some (d.take (m.max 1))

/-- What such reads give, one after the other. -/
def pieces : Bytes → List Nat → List (Option Bytes)
  | _, [] => []
  | d, m :: ms => piece d m :: pieces (d.drop (m.max 1)) ms

/-- What such reads leave. -/
def left (d : Bytes) (ms : List Nat) : Bytes := ms.foldl (fun d m => d.drop (m.max 1)) d

theorem left_nil (ms : List Nat) : left [] ms = [] := by
  induction ms with
  | nil => rfl
  | cons m ms ih => simpa [left] using ih

theorem pieces_nil (ms : List Nat) : pieces [] ms = ms.map fun _ => none := by
  induction ms with
  | nil => rfl
  | cons m ms ih => rw [pieces,List.drop_nil,ih,List.map_cons,piece,if_pos rfl]

theorem pieces_append (d : Bytes) (ms ns : List Nat) :
    pieces d (ms ++ ns) = pieces d ms ++ pieces (left d ms) ns := by
  induction ms generalizing d with
  | nil => rfl
  | cons m ms ih => exact congrArg (List.cons _) (ih _)

/-- Results of reads with the given bounds that give some bytes piece by piece, and then nothing any
more. -/
structure Exhausts (d : Bytes) (ms : List Nat) (results : List (Option Bytes)) : Prop where
  sizes : List.Forall₂ (fun m r => ∀ chunk, r = some chunk → chunk ≠ [] ∧ chunk.length ≤ m.max 1) ms
    results
  front : results.flatMap (·.getD []) <+: d
  enough : d.length ≤ ms.length → results.flatMap (·.getD []) = d
  ended : ∀ before after, results = before ++ none :: after →
    before.flatMap (·.getD []) = d ∧ ∀ r ∈ after, r = none

theorem getD_piece_append (d : Bytes) (m : Nat) : (piece d m).getD [] ++ d.drop (m.max 1) = d := by
  unfold piece
  split
  · simp_all
  · exact List.take_append_drop _ _

theorem exhausts_pieces (d : Bytes) (ms : List Nat) : Exhausts d ms (pieces d ms) := by
  induction ms generalizing d with
  | nil =>
    refine ⟨.nil,List.nil_prefix,fun h => ?_,fun before after h => by simp [pieces] at h⟩
    exact (List.length_eq_zero_iff.mp (Nat.le_zero.mp h)).symm
  | cons m ms ih =>
    have hmax : 1 ≤ m.max 1 := Nat.le_max_right _ _
    have hsplit := getD_piece_append d m
    have ih := ih (d.drop (m.max 1))
    refine ⟨.cons (fun chunk h => ?_) ih.sizes,?_,fun h => ?_,fun before after h => ?_⟩
    · unfold piece at h
      split at h
      · cases h
      · rename_i hd
        cases h
        refine ⟨fun hnil => ?_,List.length_take_le _ _⟩
        rcases List.take_eq_nil_iff.mp hnil with h | h
        · omega
        · exact hd h
    · have hp := (List.prefix_append_right_inj ((piece d m).getD [])).mpr ih.front
      rwa [hsplit] at hp
    · have hl : (d.drop (m.max 1)).length ≤ ms.length := by
        rw [List.length_cons] at h
        rw [List.length_drop]
        omega
      rw [pieces,List.flatMap_cons,ih.enough hl,hsplit]
    · cases before with
      | nil =>
        -- The first read that gives nothing is the one that finds nothing left.
        obtain ⟨hnone,rfl⟩ := List.cons.inj h
        have hd : d = [] := by
          by_contra hd
          rw [piece,if_neg hd] at hnone
          cases hnone
        refine ⟨hd.symm,fun r hr => ?_⟩
        rw [hd,List.drop_nil,pieces_nil] at hr
        exact (List.mem_map.mp hr).choose_spec.2.symm
      | cons r before =>
        obtain ⟨rfl,hrest⟩ := List.cons.inj h
        obtain ⟨hall,hafter⟩ := ih.ended before after hrest
        exact ⟨by rw [List.flatMap_cons,hall,hsplit],hafter⟩

theorem Exhausts.ne_nil {ms : List Nat} {results : List (Option Bytes)} (h : Exhausts d ms results)
    {chunk : Bytes} (hc : some chunk ∈ results) : chunk ≠ [] := by
  have sizes := h.sizes
  clear h
  induction sizes with
  | nil => cases hc
  | cons hr _ ih =>
    rcases List.mem_cons.mp hc with rfl | hc
    · exact (hr chunk rfl).1
    · exact ih hc

/-- A stream that has ended, and has only these bytes left to be read. -/
structure Stream.Holds (s : Stream) (d : Bytes) : Prop where
  readable : s.readError = none
  finReceived : s.finReceived = true
  inbound : s.inbound = if d = [] then [] else [d]

theorem Stream.consumed_of_finReceived (h : s.finReceived = true) (len : Nat) :
    s.consumed len = (none, s) := by
  unfold consumed
  split
  · rfl
  · simp [h]

theorem Stream.Holds.takeChunk (h : s.Holds d) (m : Nat) :
    (d = [] ∧ s.takeChunk (some (m.max 1)) = none) ∨
    ∃ s', s.takeChunk (some (m.max 1)) = some (d.take (m.max 1), s') ∧ d ≠ [] ∧
      (s'.noteTaken (d.take (m.max 1))).Holds (d.drop (m.max 1)) := by
  by_cases hd : d = []
  · exact .inl ⟨hd,Stream.takeChunk_eq_none_iff.mpr (by rw [h.inbound,if_pos hd])⟩
  · have hin := h.inbound
    rw [if_neg hd] at hin
    simp only [Stream.takeChunk,hin]
    by_cases hle : d.length ≤ m.max 1
    · rw [if_pos hle,List.take_of_length_le hle,List.drop_of_length_le hle]
      exact .inr ⟨_,rfl,hd,h.readable,h.finReceived,rfl⟩
    · rw [if_neg hle]
      refine .inr ⟨_,rfl,hd,h.readable,h.finReceived,?_⟩
      rw [if_neg fun hnil => hle (List.drop_eq_nil_iff.mp hnil)]
      rfl

/-- A read of a chunk from such a stream does not wait, whether or not its token has fired. -/
theorem Connection.call_chunk {c : Connection} {i : Nat} (hi : c.streams[i]? = some s)
    (h : s.Holds d) (cancelled : Bool) (m : Nat) :
    ∃ c' s', c.call cancelled (.read i (.chunk m)) = (.done (.ok (.chunk (piece d m))), c') ∧
      c'.streams[i]? = some s' ∧ s'.Holds (d.drop (m.max 1)) := by
  have hcall (r : Option Bytes) (c' : Connection)
      (hlook : c.lookData i (some (m.max 1)) = (some (.ok r), c')) :
      c.call cancelled (.read i (.chunk m)) = (.done (.ok (.chunk r)), c') := by
    simp only [call,resume,readFrom,readOn,ReadGoal.limit,hlook,succeed]
  rcases h.takeChunk m with ⟨rfl,ht⟩ | ⟨s',ht,hd,hs'⟩
  · refine ⟨_,_,hcall none _ ?_,getElem?_modify_self hi Stream.noteEnd,h.readable,h.finReceived,?_⟩
    · simp only [lookData,hi,h.readable,ht,h.finReceived,if_true]
    · rw [List.drop_nil]
      exact h.inbound
  · refine ⟨_,_,?_,getElem?_modify_self hi fun _ => s'.noteTaken (d.take (m.max 1)),hs'⟩
    rw [piece,if_neg hd]
    refine hcall _ _ ?_
    simp only [lookData,hi,h.readable,ht,Stream.consumed_of_finReceived hs'.finReceived]
    rfl

namespace Rpc

variable {s : Scene}

def readEach : List Nat → List (Except Error (Option Bytes)) →
    Process (List (Except Error (Option Bytes)))
  | [], results => .done results
  | m :: ms, results => .chunk m fun r => readEach ms (results ++ [r])

theorem run_readEach_stream (ms : List Nat) (results : List (Except Error (Option Bytes)))
    (m : Moment) {i : Nat} {stream : Stream} {d : Bytes} (hp : s.payload = .ofStream i)
    (hi : s.connection.streams[i]? = some stream) (h : stream.Holds d) :
    ((readEach ms results).run m s).1 = .done (results ++ (pieces d ms).map .ok) := by
  induction ms generalizing results s stream d with
  | nil => simp [readEach,pieces,Process.run]
  | cons n ms ih =>
    obtain ⟨c',stream',hcall,hi',h'⟩ := Connection.call_chunk hi h m.givenUp n
    have hnext := ih (results ++ [.ok (piece d n)]) (s := { s with connection := c' }) hp hi' h'
    rw [List.append_assoc] at hnext
    simp only [readEach,Process.run,hp,Payload.ofStream,hcall,chunkRead] at hnext ⊢
    exact hnext

def Payload.chunks : Payload → List Nat → List (Option Bytes)
  | _, [] => []
  | p, m :: ms => (p.takeChunk m).1 :: chunks (p.takeChunk m).2 ms

theorem run_readEach_memory (ms : List Nat) (results : List (Except Error (Option Bytes)))
    (m : Moment) {bs : List Bytes} (hp : s.payload.content = .buffered bs) :
    ((readEach ms results).run m s).1 = .done (results ++ (s.payload.chunks ms).map .ok) := by
  induction ms generalizing results s bs with
  | nil => simp [readEach,Payload.chunks,Process.run]
  | cons n ms ih =>
    have hbs : ∃ bs, (s.payload.takeChunk n).2.content = .buffered bs := by
      rcases bs with _ | ⟨chunk,bs⟩
      · exact ⟨[],by simp [Payload.takeChunk,hp]⟩
      · simp only [Payload.takeChunk,hp]
        split <;> exact ⟨_,rfl⟩
    have hnext := ih (results ++ [.ok (s.payload.takeChunk n).1])
      (s := { s with payload := (s.payload.takeChunk n).2 }) hbs.choose_spec
    rw [List.append_assoc] at hnext
    simp only [readEach,Process.run,hp]
    exact hnext

namespace Payload

/-- A read from memory takes the same piece, and leaves the same bytes behind, unless it asks for
none and takes the last one. -/
theorem takeChunk_ofBytes {m : Nat} (h : ¬(m = 0 ∧ d.length = 1)) :
    (ofBytes d).takeChunk m = (piece d m,ofBytes (d.drop (m.max 1))) := by
  cases d with
  | nil => rw [List.drop_nil]; rfl
  | cons b d =>
    have hof : ofBytes (b :: d) = ⟨.buffered [b :: d],[]⟩ := rfl
    have hmax : m.max 1 = max m 1 := rfl
    rw [hof,takeChunk,piece,if_neg (List.cons_ne_nil b d)]
    dsimp only
    split
    · rename_i hle
      rw [List.take_of_length_le (by omega),List.drop_of_length_le (by omega)]
      rfl
    · rename_i hlt
      have hne : (b :: d).drop (m.max 1) ≠ [] := by
        rw [Ne,List.drop_eq_nil_iff]
        omega
      rw [ofBytes,if_neg (by simpa using hne)]

theorem chunks_nil (ms : List Nat) : (ofBytes []).chunks ms = ms.map fun _ => none := by
  induction ms with
  | nil => rfl
  | cons m ms ih => exact congrArg (List.cons none) ih

theorem chunks_eq_pieces {ms : List Nat}
    (h : ∀ before next after, ms = before ++ 0 :: next :: after → (left d before).length ≠ 1) :
    (ofBytes d).chunks ms = pieces d ms := by
  induction ms generalizing d with
  | nil => rfl
  | cons m ms ih =>
    by_cases hlast : m = 0 ∧ d.length = 1
    · obtain ⟨rfl,hd⟩ := hlast
      obtain ⟨b,rfl⟩ := List.length_eq_one_iff.mp hd
      cases ms with
      | nil => rfl
      | cons next after => exact absurd hd (h [] next after rfl)
    · rw [chunks,takeChunk_ofBytes hlast,pieces,ih]
      intro before next after hms
      exact h (m :: before) next after (by rw [hms,List.cons_append])

theorem chunks_of_last {before : List Nat} (next : Nat) (after : List Nat)
    (h : (left d before).length = 1) :
    (ofBytes d).chunks (before ++ 0 :: next :: after) =
      pieces d (before ++ [0]) ++ some [] :: after.map fun _ => none := by
  induction before generalizing d with
  | nil =>
    obtain ⟨b,rfl⟩ := List.length_eq_one_iff.mp h
    rw [← chunks_nil]
    rfl
  | cons m before ih =>
    have hlast : ¬(m = 0 ∧ d.length = 1) := by
      rintro ⟨rfl,hd⟩
      obtain ⟨b,rfl⟩ := List.length_eq_one_iff.mp hd
      rw [show left [b] (0 :: before) = [] from left_nil before] at h
      cases h
    rw [List.cons_append,chunks,takeChunk_ofBytes hlast,ih h]
    rfl

end Payload

/-- A payload in memory and one on a stream that has ended, with the same bytes left, are read
alike: piece by piece, each within its bound and not empty, until nothing is left. The one exception
is a read of no bytes that takes the last byte from memory: the next read gives an empty chunk
there. -/
theorem payload_reads (d : Bytes) (ms : List Nat) (m : Moment) {s t : Scene} {i : Nat}
    {stream : Stream} (hs : s.payload = .ofBytes d) (ht : t.payload = .ofStream i)
    (hi : t.connection.streams[i]? = some stream) (h : stream.Holds d) :
    ∃ memory streamed : List (Option Bytes),
      ((readEach ms []).run m s).1 = .done (memory.map .ok) ∧
      ((readEach ms []).run m t).1 = .done (streamed.map .ok) ∧
      Exhausts d ms streamed ∧
      (memory = streamed ↔
        ∀ before next after, ms = before ++ 0 :: next :: after → (left d before).length ≠ 1) ∧
      ∀ before next after, ms = before ++ 0 :: next :: after → (left d before).length = 1 →
        memory = streamed.take (before.length + 1) ++ some [] :: after.map fun _ => none := by
  have hlength (ms : List Nat) : (pieces d ms).length = ms.length :=
    (exhausts_pieces d ms).sizes.length_eq.symm
  have hmemory (before : List Nat) (next : Nat) (after : List Nat)
      (hms : ms = before ++ 0 :: next :: after) (hone : (left d before).length = 1) :
      (Payload.ofBytes d).chunks ms =
        (pieces d ms).take (before.length + 1) ++ some [] :: after.map fun _ => none := by
    have hfront : (pieces d ms).take (before.length + 1) = pieces d (before ++ [0]) := by
      rw [hms,List.append_cons,pieces_append]
      exact List.take_left' (by rw [hlength,List.length_append]; rfl)
    rw [hfront,hms,Payload.chunks_of_last next after hone]
  refine ⟨(Payload.ofBytes d).chunks ms,pieces d ms,?_,run_readEach_stream ms [] m ht hi h,
    exhausts_pieces d ms,⟨fun heq before next after hms hone => ?_,Payload.chunks_eq_pieces⟩,
    hmemory⟩
  · have hrun := run_readEach_memory ms [] m (s := s) (by rw [hs]; rfl)
    rwa [hs] at hrun
  · refine (exhausts_pieces d ms).ne_nil ?_ rfl
    rw [← heq,hmemory before next after hms hone]
    exact List.mem_append_right _ List.mem_cons_self

/-- A scene with a stream of the peer that has ended and holds these bytes. -/
def Scene.ended (bs : Bytes) (payload : Payload) : Scene where
  connection := { role := .server, options := {}, codes := Code.space, streams :=
    [{ Stream.fresh .bidirectional true {} {} with inbound := [bs], finReceived := true }] }
  payload

theorem payload_reads_two : ∃ results : List (Option Bytes),
    ((readEach [0,1,0] []).run ⟨0,[],false⟩ (.ended [1,2] (.ofBytes [1,2]))).1 =
      .done (results.map .ok) ∧
    ((readEach [0,1,0] []).run ⟨0,[],false⟩ (.ended [1,2] (.ofStream 0))).1 =
      .done (results.map .ok) := by
  obtain ⟨memory,streamed,hm,hs,-,hsame,-⟩ := payload_reads [1,2] [0,1,0] ⟨0,[],false⟩
    (s := .ended [1,2] (.ofBytes [1,2])) (t := .ended [1,2] (.ofStream 0)) rfl rfl rfl ⟨rfl,rfl,rfl⟩
  have heq := hsame.mpr ?_
  · exact ⟨memory,hm,heq ▸ hs⟩
  · rintro (_ | ⟨a,_ | ⟨b,before⟩⟩) next after hms
    · decide
    · simp at hms
    · have hlength := congrArg List.length hms
      simp only [List.length_append,List.length_cons,List.length_nil] at hlength
      omega

/-- The last byte is taken by a read of no bytes. -/
theorem payload_reads_differ :
    ((readEach [0,0] []).run ⟨0,[],false⟩ (.ended [1] (.ofBytes [1]))).1 =
      .done [.ok (some [1]),.ok (some [])] ∧
    ((readEach [0,0] []).run ⟨0,[],false⟩ (.ended [1] (.ofStream 0))).1 =
      .done [.ok (some [1]),.ok none] :=
  ⟨rfl,rfl⟩

end Rpc

end Multiplex
