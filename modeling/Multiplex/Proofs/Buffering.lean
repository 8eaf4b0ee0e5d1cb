import Multiplex.Proofs.StreamChanges

/-!
What a peer can make an end buffer: for each stream no more than the window that the end announced.
-/

namespace Multiplex

/-- Whether the words have room to account for `len` bytes handed on. -/
def ReceiveWindow.Fits (w : ReceiveWindow) (len : Nat) : Prop :=
  w.unacknowledged.toNat + len < UInt64.size ∧
    w.available.toNat + (w.unacknowledged.toNat + len) < UInt64.size

namespace Stream

section Bounded

variable {window : UInt64} {s : Stream}

theorem bounded_fresh (d : Direction) (remote : Bool) (own : Options) (peer : Settings)
    (id : Option StreamId) :
    ({ fresh d remote own peer with id } : Stream).Bounded own.window :=
  ⟨by simp [fresh,ReceiveWindow.ofSize],fun _ _ => by simp [fresh,ReceiveWindow.ofSize],
    ReceiveWindow.ofSize_owed _ _,fun _ => rfl⟩

theorem Bounded.fits (h : s.Bounded window) {len : Nat} (hl : len ≤ s.inbound.flatten.length) :
    s.window.Fits len := by
  have hwithin := h.within
  have hlt := window.toNat_lt
  constructor <;> simp only [UInt64.size] <;> omega

theorem Bounded.fits_receive (h : s.Bounded window) {len : Nat} {w : ReceiveWindow}
    (hw : s.window.receive len = .ok w) : w.Fits len := by
  obtain ⟨-,heq,hsum⟩ := receive_eq_ok hw
  have hunack : w.unacknowledged = s.window.unacknowledged := by rw [heq]
  have hwithin := h.within
  have hlt := window.toNat_lt
  unfold ReceiveWindow.Fits
  rw [hunack]
  constructor <;> simp only [UInt64.size] <;> omega

end Bounded

end Stream

namespace Connection

/-- The window covers what each stream holds, and who stands in the table has started. -/
structure Metered (c : Connection) : Prop where
  bounded : ∀ {i : Nat} {s : Stream}, c.streams[i]? = some s → s.Bounded c.options.window
  measured : ∀ {i : Nat} {s : Stream}, c.streams[i]? = some s →
    s.window.threshold = (ReceiveWindow.ofSize c.options.window c.options.threshold).threshold
  named : ∀ {i : Nat}, i ∈ c.table.map (·.2) → ∃ s, c.streams[i]? = some s ∧ s.id.isSome

section Step

variable {c c' : Connection}

theorem Metered.set {i : Nat} {s s' : Stream} (h : c.Metered) (hi : c.streams[i]? = some s)
    (ho : c'.options = c.options) (hs : c'.streams = c.streams.set i s')
    (ht : c'.table.map (·.2) ⊆ c.table.map (·.2)) (hid : s'.id = s.id)
    (hb : s'.Bounded c.options.window) (hw : s'.window.threshold = s.window.threshold) :
    c'.Metered := by
  refine ⟨fun {j t} hj => ?_,fun {j t} hj => ?_,fun {j} hj => ?_⟩
  · rw [hs,getElem?_set_of hi] at hj
    rw [ho]
    split at hj
    · cases hj
      exact hb
    · exact h.bounded hj
  · rw [hs,getElem?_set_of hi] at hj
    rw [ho]
    split at hj
    · cases hj
      exact hw.trans (h.measured hi)
    · exact h.measured hj
  · obtain ⟨t,hj',ht'⟩ := h.named (ht hj)
    rw [hs,getElem?_set_of hi]
    split
    · rename_i hji
      rw [hji,hi] at hj'
      cases hj'
      exact ⟨s',rfl,by rw [hid]; exact ht'⟩
    · exact ⟨t,hj',ht'⟩

theorem Metered.concat (h : c.Metered) (d : Direction) (remote : Bool) (id : Option StreamId)
    (ho : c'.options = c.options)
    (hs : c'.streams = c.streams ++ [{ Stream.fresh d remote c.options c.peer with id }])
    (ht : ∀ i ∈ c'.table.map (·.2), i ∈ c.table.map (·.2) ∨ i = c.streams.length ∧ id.isSome) :
    c'.Metered := by
  have hlast : c'.streams[c.streams.length]? =
      some { Stream.fresh d remote c.options c.peer with id } := by
    rw [hs]
    simp
  have hcases {j : Nat} {t : Stream} (hj : c'.streams[j]? = some t) :
      c.streams[j]? = some t ∨ t = { Stream.fresh d remote c.options c.peer with id } :=
    (getElem?_concat (hs ▸ hj)).imp_right And.right
  refine ⟨fun hj => ?_,fun hj => ?_,fun {j} hj => ?_⟩
  · rw [ho]
    rcases hcases hj with hj | rfl
    · exact h.bounded hj
    · exact Stream.bounded_fresh d remote c.options c.peer id
  · rw [ho]
    rcases hcases hj with hj | rfl
    · exact h.measured hj
    · rfl
  · rcases ht j hj with hj | ⟨rfl,hid⟩
    · obtain ⟨t,hj',ht'⟩ := h.named hj
      exact ⟨t,by rw [hs]; exact getElem?_append_of_some _ hj',ht'⟩
    · exact ⟨_,hlast,hid⟩

theorem Metered.start {i : Nat} (h : c.Metered) (hs : Start i c c') : c'.Metered := by
  obtain ⟨hi,-,-,-,-⟩ := hs
  rename_i s
  have hb := h.bounded hi
  refine ⟨fun {j t} hj => ?_,fun {j t} hj => ?_,fun {j} hj => ?_⟩
  · simp only [started,getElem?_set_of hi] at hj
    split at hj
    · cases hj
      exact { hb with idle := fun hid => by cases hid }
    · exact h.bounded hj
  · simp only [started,getElem?_set_of hi] at hj
    split at hj
    · cases hj
      exact (h.measured hi : s.window.threshold = _)
    · exact h.measured hj
  · simp only [started,List.map_append,List.mem_append,List.map_cons,List.map_nil,
      List.mem_singleton] at hj
    simp only [started,getElem?_set_of hi]
    split
    · exact ⟨_,rfl,rfl⟩
    · rename_i hji
      exact h.named (hj.resolve_right hji)

theorem Metered.release (h : c.Metered) (i : Nat) : (c.release i).Metered := by
  rcases c.release_cases i with heq | ⟨s,id,hi,hid,-,-,-,heq⟩
  · rw [heq]
    exact h
  · have hb := h.bounded hi
    rw [heq,setActive_eq]
    refine h.set hi rfl rfl ?_ rfl { hb with exactly := fun _ hr => (by cases hr) } rfl
    exact List.map_subset _ List.filter_sublist.subset

theorem Metered.fall (h : c.Metered) (hs : Lapsed c.streams c'.streams) (ht : c'.table = [])
    (ho : c'.options = c.options) : c'.Metered := by
  have hcases {j : Nat} {t' : Stream} (hj : c'.streams[j]? = some t') :
      ∃ t, c.streams[j]? = some t ∧ t.Lapses t' := by
    obtain ⟨f,hf,hlapses⟩ := hs j
    rw [hf] at hj
    obtain ⟨t,hj',rfl⟩ := Option.map_eq_some_iff.mp hj
    exact ⟨t,hj',hlapses t⟩
  refine ⟨fun hj => ?_,fun hj => ?_,fun hj => ?_⟩
  · obtain ⟨t,hj',hl⟩ := hcases hj
    rw [ho]
    exact hl.bounded (h.bounded hj')
  · obtain ⟨t,hj',hl⟩ := hcases hj
    obtain ⟨_,_,_,_,rfl,-⟩ := hl
    rw [ho]
    exact (h.measured hj' : t.window.threshold = _)
  · rw [ht] at hj
    cases hj

theorem Touch.metered (ht : Touch c c') (h : c.Metered) : c'.Metered := by
  cases ht with
  | rest streams table _ _ options =>
    refine ⟨?_,?_,?_⟩
    · rw [streams,options]
      exact h.bounded
    · rw [streams,options]
      exact h.measured
    · rw [streams,table]
      exact h.named
  | @change _ i s s' hi streams beside proceeds bounded =>
    refine h.set hi beside.options streams ?_ proceeds.id ?_ proceeds.threshold
    · rw [beside.table]
      exact List.Subset.refl _
    · refine bounded (fun hplace => ?_) (h.bounded hi)
      obtain ⟨t,hj,ht⟩ := h.named hplace
      cases hi.symm.trans hj
      exact ht
  | release i => exact h.release i
  | add d =>
    refine h.concat d false none rfl rfl fun i hi => .inl hi
  | start hs => exact h.start hs
  | @surface id metrics changes =>
    refine h.concat id.direction true (some id) rfl rfl fun i hi => ?_
    simpa [surfaced] using hi
  | fall streams table _ _ options => exact h.fall streams table options

end Step

theorem metered_fresh (role : Role) (options : Options) (codes : CodeSpace) :
    (fresh role options codes).Metered :=
  ⟨fun hi => (by cases hi),fun hi => (by cases hi),fun hi => (by cases hi)⟩

theorem handle_data {c c₁ : Connection} {i : Nat} {s : Stream} {id : StreamId} (now : Nat)
    (fin : Bool) (data : Bytes) (ho : c.openRemote id = (.ok (some i), c₁))
    (hi : c₁.streams[i]? = some s) (reads : s.hasReadSide = true)
    (unended : s.finReceived = false) :
    (s.window.available.toNat < data.length → c.handle now (.stream id fin data) =
        (some (.window id ⟨data.length, s.window.available⟩), c₁)) ∧
      (data.length ≤ s.window.available.toNat → (c.handle now (.stream id fin data)).1 = none) := by
  have hhandle : c.handle now (.stream id fin data) = c₁.orElse (c₁.receiveData i id fin data) := by
    unfold handle
    simp only [ho]
  rw [hhandle]
  constructor
  · intro hlt
    have hwindow : s.window.receive data.length = .error ⟨data.length, s.window.available⟩ := by
      rw [ReceiveWindow.receive,if_pos hlt]
    simp [receiveData,hi,reads,unended,hwindow,orElse]
  · intro hle
    have hwindow : s.window.receive data.length =
        .ok { s.window with available := s.window.available - UInt64.ofNat data.length } := by
      rw [ReceiveWindow.receive,if_neg (by omega)]
    simp [receiveData,hi,reads,unended,hwindow,orElse]

theorem abort_window (c : Connection) (e : Failure) (i : Nat) :
    ((c.abort e).streams[i]?.map fun s => (s.window, s.inbound)) =
      c.streams[i]?.map fun s => (s.window, s.inbound) := by
  obtain ⟨f,hf,hlapses⟩ := lapsed_abort c e i
  rw [hf,Option.map_map]
  congr 1
  funext s
  obtain ⟨_,_,_,_,heq,-⟩ := hlapses s
  simp only [Function.comp_apply,heq]

end Connection

namespace Station

open Connection

theorem Fresh.metered {s : Station} (h : s.Fresh) (steps : List Step) :
    (s.run steps).connection.Metered :=
  (h.touches steps).keep Touch.metered (h.connection metered_fresh)

/-- Whatever the peer sends and the application does, a stream holds no more than its window: what
waits to be read, what may still come and what is owed come to the window as long as the stream is
open, and never to more. So the words of the accounting have room for whatever is read, thrown away
or dropped. Data is refused exactly if the window has no room for it, and that changes no window. -/
theorem buffers_within_window (role : Role) (options : Options) (codes : CodeSpace)
    (channel : Channel) (steps : List Step) :
    let c := ((fresh role options codes channel).run steps).connection
    (∀ (i : Nat) (s : Stream), c.streams[i]? = some s →
      s.inbound.flatten.length + s.window.available.toNat + s.window.unacknowledged.toNat ≤
        options.window.toNat ∧
      (s.finReceived = false → s.released = false →
        s.inbound.flatten.length + s.window.available.toNat + s.window.unacknowledged.toNat =
          options.window.toNat) ∧
      s.window.unacknowledged < s.window.threshold ∧
      s.window.threshold = (ReceiveWindow.ofSize options.window options.threshold).threshold ∧
      (∀ limit chunk s', s.takeChunk limit = some (chunk, s') → s.window.Fits chunk.length) ∧
      s.window.Fits s.inbound.flatten.length ∧
      ∀ len w, s.window.receive len = .ok w → len ≤ s.window.available.toNat ∧
        w = { s.window with available := s.window.available - UInt64.ofNat len } ∧
        w.available.toNat = s.window.available.toNat - len ∧ w.Fits len) ∧
    ∀ (now : Nat) (id : StreamId) (fin : Bool) (data : Bytes) (i : Nat) (c₁ : Connection)
      (s : Stream), c.openRemote id = (.ok (some i), c₁) → c₁.streams[i]? = some s →
      s.hasReadSide = true → s.finReceived = false →
      ((c.handle now (.stream id fin data)).1.isSome ↔ s.window.available.toNat < data.length) ∧
      (s.window.available.toNat < data.length →
        c.handle now (.stream id fin data) =
          (some (.window id ⟨data.length, s.window.available⟩), c₁) ∧
        ∀ (e : Failure) (j : Nat), ((c₁.abort e).streams[j]?.map fun t => (t.window, t.inbound)) =
          c₁.streams[j]?.map fun t => (t.window, t.inbound)) := by
  intro c
  have hfresh := Fresh.intro role options codes channel
  have hmetered := hfresh.metered steps
  have ho : c.options = options := (hfresh.deeds steps).later.options
  refine ⟨fun i s hi => ?_,fun now id fin data i c₁ s hopen hi reads unended => ?_⟩
  · have hb : s.Bounded options.window := ho ▸ hmetered.bounded hi
    have ht : s.window.threshold =
        (ReceiveWindow.ofSize options.window options.threshold).threshold := by
      rw [← ho]
      exact hmetered.measured hi
    refine ⟨hb.within,hb.exactly,hb.owed,ht,fun limit chunk s' htake => ?_,hb.fits le_rfl,
      fun len w hw => ?_⟩
    · obtain ⟨rest,-,hsplit⟩ := Stream.takeChunk_spec htake
      apply hb.fits
      rw [hsplit,List.length_append]
      omega
    · obtain ⟨hle,heq,hsum⟩ := Stream.receive_eq_ok hw
      exact ⟨hle,heq,by omega,hb.fits_receive hw⟩
  · obtain ⟨hrefused,htaken⟩ := handle_data now fin data hopen hi reads unended
    refine ⟨⟨fun hsome => ?_,fun hlt => ?_⟩,fun hlt => ⟨hrefused hlt,c₁.abort_window⟩⟩
    · by_contra hle
      rw [htaken (by omega)] at hsome
      cases hsome
    · rw [hrefused hlt]
      rfl

/-- The peer sends six bytes, and four of them are read. -/
def sipping : List Step :=
  meeting {} ++ [.hearing [.stream ⟨3⟩ false [1, 2, 3, 4, 5, 6]], .quiet (.call false .accept),
    .quiet (.call false (.read 0 (.chunk 4)))]

/-- Of a window of ten bytes two are buffered, four owed and four left, so that the peer may send
four more and not five. -/
theorem buffers_within_window_sipping :
    let c := ((fresh .client { window := 10 } .direct .plain).run sipping).connection
    (c.streams.map fun s => (s.inbound, s.window)) = [([[5, 6]], ⟨4, 4, 5⟩)] ∧
      (c.openRemote ⟨3⟩).1 = .ok (some 0) ∧
      (c.handle 0 (.stream ⟨3⟩ false [7, 8, 9, 10])).1.isSome = false ∧
      (c.handle 0 (.stream ⟨3⟩ false [7, 8, 9, 10, 11])).1 = some (.window ⟨3⟩ ⟨5, 4⟩) := by
  intro c
  have hstreams : (c.streams.map fun s => (s.inbound, s.window)) = [([[5, 6]], ⟨4, 4, 5⟩)] := by
    decide +kernel
  have hfind : c.find? ⟨3⟩ = some 0 := by decide +kernel
  have hopen : c.openRemote ⟨3⟩ = (.ok (some 0), c) := openRemote_of_known hfind
  have hflags : (c.streams[0]?.map fun s => (s.hasReadSide, s.finReceived, s.window.available)) =
      some (true, false, 4) := by decide +kernel
  obtain ⟨s,hi,hs⟩ := Option.map_eq_some_iff.mp hflags
  obtain ⟨hreads,hend,havailable⟩ : s.hasReadSide = true ∧ s.finReceived = false ∧
      s.window.available = 4 := by simpa using hs
  have h := (buffers_within_window .client { window := 10 } .direct .plain sipping).2
  have hfour := (h 0 ⟨3⟩ false [7, 8, 9, 10] 0 c s hopen hi hreads hend).1
  have hfive := (h 0 ⟨3⟩ false [7, 8, 9, 10, 11] 0 c s hopen hi hreads hend).2
  rw [havailable] at hfour hfive
  refine ⟨hstreams,by rw [hopen],?_,?_⟩
  · rw [← Bool.not_eq_true,hfour]
    decide
  · rw [(hfive (by decide)).1]
    rfl

end Station

end Multiplex
