import Multiplex.Network.Basic
import Mathlib.Data.List.Induction
import Mathlib.Data.List.Nodup

/-!
A network in memory over any sequence of calls and of what listeners do. What was called is accepted
once, in the order of the calls, unless its listener is dropped before.
-/

namespace Multiplex

namespace Network

variable {α : Type} {n : Network α} {i j : Nat} {a b : String}
  {f : List (α × String) → List (α × String)}

def Holds (n : Network α) (i : Nat) (a : String) : Prop :=
  ∃ l, n.listeners[i]? = some l ∧ l.live = true ∧ l.address = a

/-- Addresses stand for their live listeners, and a dropped listener keeps nothing. -/
structure Kept (n : Network α) : Prop where
  registered (a : String) (i : Nat) : n.registry.lookup a = some i ↔ n.Holds i a
  emptied {i : Nat} {l : Listener α} : n.listeners[i]? = some l → l.live = false → l.queue = []

theorem lookup_cons_of_ne {entries : List (String × Nat)} (h : b ≠ a) :
    ((a, i) :: entries).lookup b = entries.lookup b := by
  have hbeq : (b == a) = false := by simpa using h
  rw [List.lookup_cons,hbeq]

theorem lookup_unregister (n : Network α) (a b : String) :
    (n.unregister a).lookup b = if b = a then none else n.registry.lookup b := by
  unfold unregister
  induction n.registry with
  | nil => simp
  | cons entry entries ih =>
    obtain ⟨key,i⟩ := entry
    by_cases hk : key = a
    · subst hk
      rw [List.filter_cons_of_neg (by simp),ih]
      by_cases hb : b = key
      · simp [hb]
      · rw [if_neg hb,if_neg hb,lookup_cons_of_ne hb]
    · rw [List.filter_cons_of_pos (by simpa using hk)]
      by_cases hb : b = key
      · subst hb
        simp [hk]
      · rw [lookup_cons_of_ne hb,lookup_cons_of_ne hb,ih]

theorem Holds.isLive (h : n.Holds i a) : n.isLive i = true := by
  obtain ⟨l,hl,live,-⟩ := h
  simp [Network.isLive,hl,live]

theorem Kept.single (h : n.Kept) (hi : n.Holds i a) (hj : n.Holds j a) : i = j :=
  Option.some.inj (((h.registered a i).mpr hi).symm.trans ((h.registered a j).mpr hj))

theorem Kept.lookup_none (h : n.Kept) (ha : ∀ i, ¬ n.Holds i a) : n.registry.lookup a = none :=
  Option.eq_none_iff_forall_ne_some.mpr fun i hi => ha i ((h.registered a i).mp hi)

/-- What is called at an address is never closed. -/
theorem Kept.any_isLive (h : n.Kept) (a : String) :
    (n.registry.lookup a).any n.isLive = true ↔ ∃ i, n.Holds i a := by
  rw [Option.any_eq_true]
  refine exists_congr fun i => ⟨fun hi => (h.registered a i).mp hi.1,fun hi => ?_⟩
  exact ⟨(h.registered a i).mpr hi,hi.isLive⟩

theorem bind_held (h : n.Kept) (ha : n.Holds i a) : n.bind a = .error (.alreadyBound a) :=
  if_pos ((h.any_isLive a).mpr ⟨i,ha⟩)

def extend (n : Network α) (a : String) : Network α :=
  { n with
    listeners := n.listeners ++ [{ address := a }]
    registry := (a, n.listeners.length) :: n.unregister a }

theorem bind_free (h : n.Kept) (ha : ∀ i, ¬ n.Holds i a) :
    n.bind a = .ok (n.listeners.length, n.extend a) :=
  if_neg fun hany => ((h.any_isLive a).mp hany).elim ha

theorem holds_extend : (n.extend a).Holds i b ↔ n.Holds i b ∨ i = n.listeners.length ∧ a = b := by
  unfold Holds extend
  rw [List.getElem?_append]
  by_cases hi : i < n.listeners.length
  · rw [if_pos hi]
    simp [Nat.ne_of_lt hi]
  · have hout : n.listeners[i]? = none := List.getElem?_eq_none (Nat.not_lt.mp hi)
    rw [if_neg hi,hout,List.getElem?_singleton]
    by_cases he : i = n.listeners.length
    · simp [he]
    · simp [he,show i - n.listeners.length ≠ 0 by omega]

theorem Kept.extend (h : n.Kept) (ha : ∀ i, ¬ n.Holds i a) : (n.extend a).Kept where
  registered b i := by
    rw [holds_extend,Network.extend]
    by_cases hb : b = a
    · subst hb
      simp [ha,eq_comm]
    · rw [lookup_cons_of_ne hb,lookup_unregister,if_neg hb,h.registered]
      simp [Ne.symm hb]
  emptied {i l} hi hl := by
    rw [Network.extend,List.getElem?_append] at hi
    split at hi
    · exact h.emptied hi hl
    · have hm := List.mem_singleton.mp (List.mem_of_getElem? hi)
      rw [hm]

def requeue (n : Network α) (i : Nat) (f : List (α × String) → List (α × String)) : Network α :=
  { n with listeners := n.listeners.modify i fun l => { l with queue := f l.queue } }

theorem getElem?_requeue (f : List (α × String) → List (α × String)) (j : Nat) :
    (n.requeue i f).listeners[j]? = n.listeners[j]?.map fun l =>
      if i = j then { l with queue := f l.queue } else l := by
  rw [requeue,List.getElem?_modify]
  split <;> simp

theorem holds_requeue : (n.requeue i f).Holds j a ↔ n.Holds j a := by
  unfold Holds
  rw [getElem?_requeue]
  cases n.listeners[j]? with
  | none => simp
  | some l => split <;> simp

theorem Kept.requeue (h : n.Kept) (hf : n.isLive i = true ∨ f [] = []) : (n.requeue i f).Kept where
  registered b j := by
    rw [holds_requeue]
    exact h.registered b j
  emptied {j l} hj hl := by
    rw [getElem?_requeue] at hj
    obtain ⟨k,hk,rfl⟩ := Option.map_eq_some_iff.mp hj
    split at hl <;> rename_i hij
    · subst hij
      rw [if_pos rfl]
      rcases hf with hlive | hnil
      · have hdead : k.live = false := hl
        simp [isLive,hk,hdead] at hlive
      · exact (congrArg f (h.emptied hk hl)).trans hnil
    · rw [if_neg hij]
      exact h.emptied hk hl

def without (n : Network α) (i : Nat) (a : String) : Network α :=
  { n with
    registry := n.unregister a
    listeners := n.listeners.modify i fun l => { l with queue := [], live := false } }

theorem getElem?_without (j : Nat) : (n.without i a).listeners[j]? = n.listeners[j]?.map fun l =>
      if i = j then { l with queue := [], live := false } else l := by
  rw [without,List.getElem?_modify]
  split <;> simp

theorem holds_without : (n.without i a).Holds j b ↔ n.Holds j b ∧ j ≠ i := by
  unfold Holds
  rw [getElem?_without]
  cases n.listeners[j]? with
  | none => simp
  | some l =>
    by_cases hij : i = j
    · simp [hij]
    · simp [hij,Ne.symm hij]

theorem unbind_live (ha : n.Holds i a) : (n.unbind i).2 = n.without i a := by
  obtain ⟨l,hl,live,rfl⟩ := ha
  simp [unbind,hl,live,without]

theorem unbind_dead (ha : ∀ a, ¬ n.Holds i a) : (n.unbind i).2 = n := by
  unfold unbind
  split
  · rename_i l hl
    split
    · rename_i live
      exact (ha _ ⟨l,hl,live,rfl⟩).elim
    · rfl
  · rfl

theorem Kept.without (h : n.Kept) (ha : n.Holds i a) : (n.without i a).Kept where
  registered b j := by
    rw [holds_without,Network.without,lookup_unregister]
    by_cases hb : b = a
    · subst hb
      simpa using fun hj => h.single hj ha
    · rw [if_neg hb,h.registered]
      refine ⟨fun hj => ⟨hj,?_⟩,And.left⟩
      rintro rfl
      obtain ⟨l,hl,-,rfl⟩ := ha
      obtain ⟨k,hk,-,rfl⟩ := hj
      cases hl.symm.trans hk
      exact hb rfl
  emptied {j l} hj hl := by
    rw [getElem?_without] at hj
    obtain ⟨k,hk,rfl⟩ := Option.map_eq_some_iff.mp hj
    split at hl <;> rename_i hij
    · rw [if_pos hij]
    · rw [if_neg hij]
      exact h.emptied hk hl

def ring (n : Network α) (i : Nat) (x : α) : Network α :=
  { n with callers := n.callers + 1 }.requeue i (· ++ [(x, callerName (n.callers + 1))])

theorem connect_held (h : n.Kept) (ha : n.Holds i a) (x : α) :
    n.connect a x = (.ok (), n.ring i x) := by
  have hlive : { n with callers := n.callers + 1 }.isLive i = true := ha.isLive
  unfold connect
  dsimp only
  rw [(h.registered a i).mpr ha]
  dsimp only
  rw [if_pos hlive]
  rfl

theorem connect_free (h : n.Kept) (ha : ∀ i, ¬ n.Holds i a) (x : α) :
    n.connect a x = (.error (.nothingListening a), { n with callers := n.callers + 1 }) := by
  unfold connect
  dsimp only
  rw [h.lookup_none ha]

theorem Kept.ring (h : n.Kept) (ha : n.Holds i a) (x : α) : (n.ring i x).Kept :=
  requeue (n := { n with callers := n.callers + 1 }) ⟨h.registered,h.emptied⟩ (.inl ha.isLive)

theorem of_accept {first : α × String} {n' : Network α} (h : n.accept i = some (.ok (first, n'))) :
    ∃ l rest, n.listeners[i]? = some l ∧ l.queue = first :: rest ∧
      n' = n.requeue i fun _ => rest := by
  unfold accept at h
  split at h
  · rename_i l hl
    split at h
    · rename_i hq
      cases h
      exact ⟨l,_,hl,hq,rfl⟩
    · split at h <;> cases h
  · cases h

theorem accept_live (h : n.Kept) {l : Listener α} (hl : n.listeners[i]? = some l)
    (live : l.live = true) :
    n.accept i = l.queue.head?.map fun first => .ok (first, n.requeue i fun _ => l.queue.tail) := by
  unfold accept
  rw [hl]
  dsimp only
  cases hq : l.queue with
  | nil =>
    have hmem := List.lookup_eq_some_iff.mp ((h.registered _ i).mpr ⟨l,hl,live,rfl⟩)
    obtain ⟨front,back,he,-⟩ := hmem
    simp [he]
  | cons first rest => rfl

/-- The live listener of an address. -/
def holder? (n : Network α) (a : String) : Option Nat :=
  n.listeners.findIdx? fun l => l.live && l.address = a

theorem holder?_of_holds (h : n.Kept) (ha : n.Holds i a) : n.holder? a = some i := by
  obtain ⟨l,hl,live,rfl⟩ := ha
  cases hf : n.holder? l.address with
  | none =>
    have hno := List.findIdx?_eq_none_iff.mp hf l (List.mem_of_getElem? hl)
    simp [live] at hno
  | some j =>
    obtain ⟨hj,hp,-⟩ := List.findIdx?_eq_some_iff_getElem.mp hf
    simp only [Bool.and_eq_true,decide_eq_true_eq] at hp
    have hheld : n.Holds j l.address := ⟨_,List.getElem?_eq_getElem hj,hp.1,hp.2⟩
    exact congrArg some (h.single hheld ⟨l,hl,live,rfl⟩)

/-- What is asked of a network, or of one of its listeners. -/
inductive Event (α : Type)
  | bind (address : String)
  | connect (address : String) (connection : α)
  | accept (i : Nat)
  | drop (i : Nat)

end Network

open Network

/-- A network, and what has happened on it: which connections were called through to which listener
and under which name, and which ones listeners accepted, both oldest first. -/
structure Chronicle (α : Type) where
  network : Network α := {}
  calls : List (Nat × α × String) := []
  accepts : List (Nat × α × String) := []

namespace Chronicle

variable {α : Type} {x : Chronicle α} {i : Nat} {a : String}

def step (x : Chronicle α) : Event α → Chronicle α
  | .bind a =>
    match x.network.bind a with
    | .ok (_, network) => { x with network }
    | .error _ => x
  | .connect a c =>
    match x.network.connect a c with
    | (.ok (), network) =>
      { x with
        network
        calls := x.calls ++ (x.network.holder? a).toList.map (·, c, callerName network.callers) }
    | (.error _, network) => { x with network }
  | .accept i =>
    match x.network.accept i with
    | some (.ok (first, network)) => { x with network, accepts := x.accepts ++ [(i, first)] }
    | some (.error _) | none => x
  | .drop i => { x with network := (x.network.unbind i).2 }

def run (events : List (Event α)) : Chronicle α := events.foldl step {}

def about (visits : List (Nat × α × String)) (i : Nat) : List (α × String) :=
  (visits.filter (·.1 = i)).map (·.2)

theorem about_concat (visits : List (Nat × α × String)) (j : Nat) (x : α × String) (i : Nat) :
    about (visits ++ [(j, x)]) i = about visits i ++ if j = i then [x] else [] := by
  by_cases hj : j = i <;> simp [about,hj]

/-- What a listener accepted, what still waits there and what was lost with it is what was called,
and callers are told apart by their names. -/
structure Tracks (x : Chronicle α) : Prop where
  kept : x.network.Kept
  absent (i : Nat) : x.network.listeners[i]? = none → about x.calls i = [] ∧ about x.accepts i = []
  visits {i : Nat} {l : Listener α} : x.network.listeners[i]? = some l →
    ∃ lost, about x.accepts i ++ l.queue ++ lost = about x.calls i ∧ (l.live = true → lost = [])
  named : ∃ numbers : List Nat, x.calls.map (·.2.2) = numbers.map callerName ∧ numbers.Nodup ∧
    ∀ k ∈ numbers, k ≤ x.network.callers

theorem callerName_injective : Function.Injective callerName := by
  intro k k' hk
  have hdigits : Nat.toDigits 10 k = Nat.toDigits 10 k' := by
    simpa [callerName,Nat.repr,String.ofList_inj] using hk
  rw [← Nat.ofDigitChars_ten_toDigits (n := k),hdigits,Nat.ofDigitChars_ten_toDigits]

namespace Tracks

section

variable (h : Tracks x)

include h

theorem extend (ha : ∀ i, ¬ x.network.Holds i a) :
    Tracks { x with network := x.network.extend a } := by
  refine ⟨h.kept.extend ha,fun i hi => h.absent i ?_,fun {i l} hl => ?_,h.named⟩
  · rw [Network.extend,List.getElem?_eq_none_iff,List.length_append] at hi
    exact List.getElem?_eq_none (by omega)
  · rw [Network.extend,List.getElem?_append] at hl
    split at hl <;> rename_i hi
    · exact h.visits hl
    · -- nothing was asked of a new listener
      obtain ⟨hcalls,haccepts⟩ := h.absent i (List.getElem?_eq_none (Nat.not_lt.mp hi))
      have hnew := List.mem_singleton.mp (List.mem_of_getElem? hl)
      exact ⟨[],by simp [hcalls,haccepts,hnew]⟩

theorem ring (ha : x.network.Holds i a) (c : α) : Tracks { x with
      network := x.network.ring i c
      calls := x.calls ++ [(i, c, callerName (x.network.callers + 1))] } := by
  obtain ⟨l,hl,live,-⟩ := id ha
  refine ⟨h.kept.ring ha c,fun j hj => ?_,fun {j k'} hk' => ?_,?_⟩
  · rw [Network.ring,getElem?_requeue,Option.map_eq_none_iff] at hj
    have hne : i ≠ j := by
      rintro rfl
      exact Option.some_ne_none l (hl.symm.trans hj)
    rw [about_concat,if_neg hne,List.append_nil]
    exact h.absent j hj
  · rw [Network.ring,getElem?_requeue] at hk'
    obtain ⟨k,hk,rfl⟩ := Option.map_eq_some_iff.mp hk'
    rw [about_concat]
    obtain ⟨lost,hv,hlost⟩ := h.visits hk
    split
    · rename_i hij
      subst hij
      cases hl.symm.trans hk
      refine ⟨[],?_,fun _ => rfl⟩
      rw [← hv,hlost live]
      simp
    · exact ⟨lost,by rw [List.append_nil,hv],hlost⟩
  · obtain ⟨numbers,hn,hd,hle⟩ := h.named
    refine ⟨numbers ++ [x.network.callers + 1],by simp [hn],?_,fun k hk => ?_⟩
    · refine List.nodup_append.mpr ⟨hd,List.nodup_singleton _,?_⟩
      rintro k hk _ hm rfl
      have hlast := List.mem_singleton.mp hm
      have hbound := hle k hk
      omega
    · rcases List.mem_append.mp hk with hk | hk
      · exact Nat.le_succ_of_le (hle k hk)
      · exact Nat.le_of_eq (List.mem_singleton.mp hk)

theorem count :
    Tracks { x with network := { x.network with callers := x.network.callers + 1 } } where
  kept := ⟨h.kept.registered,h.kept.emptied⟩
  absent := h.absent
  visits := h.visits
  named := by
    obtain ⟨numbers,hn,hd,hle⟩ := h.named
    exact ⟨numbers,hn,hd,fun k hk => Nat.le_succ_of_le (hle k hk)⟩

theorem accept {l : Listener α} {first : α × String} {rest : List (α × String)}
    (hl : x.network.listeners[i]? = some l) (hq : l.queue = first :: rest) :
    Tracks { x with
      network := x.network.requeue i fun _ => rest, accepts := x.accepts ++ [(i, first)] } := by
  have hlive : x.network.isLive i = true := by
    cases hd : l.live with
    | true => exact Holds.isLive ⟨l,hl,hd,rfl⟩
    | false => exact (List.cons_ne_nil _ _ (hq.symm.trans (h.kept.emptied hl hd))).elim
  have hkept := h.kept.requeue (f := fun _ => rest) (.inl hlive)
  refine ⟨hkept,fun j hj => ?_,fun {j k'} hk' => ?_,h.named⟩
  · dsimp only at hj
    rw [getElem?_requeue,Option.map_eq_none_iff] at hj
    have hne : i ≠ j := by
      rintro rfl
      exact Option.some_ne_none l (hl.symm.trans hj)
    rw [about_concat,if_neg hne,List.append_nil]
    exact h.absent j hj
  · dsimp only at hk'
    rw [getElem?_requeue] at hk'
    obtain ⟨k,hk,rfl⟩ := Option.map_eq_some_iff.mp hk'
    obtain ⟨lost,hv,hlost⟩ := h.visits hk
    rw [about_concat]
    split
    · rename_i hij
      subst hij
      cases hl.symm.trans hk
      exact ⟨lost,by rw [← hv,hq]; simp,hlost⟩
    · exact ⟨lost,by rw [List.append_nil,hv],hlost⟩

theorem without (ha : x.network.Holds i a) :
    Tracks { x with network := x.network.without i a } := by
  refine ⟨h.kept.without ha,fun j hj => h.absent j ?_,fun {j k'} hk' => ?_,h.named⟩
  · rwa [getElem?_without,Option.map_eq_none_iff] at hj
  · rw [getElem?_without] at hk'
    obtain ⟨k,hk,rfl⟩ := Option.map_eq_some_iff.mp hk'
    obtain ⟨lost,hv,hlost⟩ := h.visits hk
    split
    · exact ⟨k.queue ++ lost,by simp [← hv],Bool.false_ne_true.elim⟩
    · exact ⟨lost,hv,hlost⟩

theorem step (e : Event α) : Tracks (x.step e) := by
  cases e with
  | bind a =>
    by_cases ha : ∃ i, x.network.Holds i a
    · obtain ⟨i,ha⟩ := ha
      rw [Chronicle.step,bind_held h.kept ha]
      exact h
    · have hfree := not_exists.mp ha
      rw [Chronicle.step,bind_free h.kept hfree]
      exact h.extend hfree
  | connect a c =>
    by_cases ha : ∃ i, x.network.Holds i a
    · obtain ⟨i,ha⟩ := ha
      rw [Chronicle.step,connect_held h.kept ha,holder?_of_holds h.kept ha]
      exact h.ring ha c
    · rw [Chronicle.step,connect_free h.kept (not_exists.mp ha)]
      exact h.count
  | accept i =>
    unfold Chronicle.step
    dsimp only
    split
    · rename_i ha
      obtain ⟨l,rest,hl,hq,rfl⟩ := of_accept ha
      exact h.accept hl hq
    · exact h
    · exact h
  | drop i =>
    rw [Chronicle.step]
    by_cases ha : ∃ a, x.network.Holds i a
    · obtain ⟨a,ha⟩ := ha
      rw [unbind_live ha]
      exact h.without ha
    · rw [unbind_dead (not_exists.mp ha)]
      exact h

end

end Tracks

theorem tracks_run (events : List (Event α)) : Tracks (run events) := by
  induction events using List.reverseRecOn with
  | nil =>
    refine ⟨⟨fun a i => ?_,by simp [run]⟩,fun i _ => ⟨rfl,rfl⟩,by simp [run],[],rfl,.nil,by simp⟩
    simp [run,Holds]
  | append_singleton events e ih =>
    rw [run,List.foldl_concat]
    exact ih.step e

/-- What users of a network can rely on. -/
structure Reliable (x : Chronicle α) : Prop where
  single {i j : Nat} {a : String} : x.network.Holds i a → x.network.Holds j a → i = j
  refused (a : String) : x.network.bind a = .error (.alreadyBound a) ↔ ∃ i, x.network.Holds i a
  bound {a : String} : (∀ i, ¬ x.network.Holds i a) → ∃ n,
    x.network.bind a = .ok (x.network.listeners.length, n) ∧
      ∀ i b, n.Holds i b ↔ x.network.Holds i b ∨ i = x.network.listeners.length ∧ a = b
  reached (a : String) (c : α) : (x.network.connect a c).1 = .ok () ↔ ∃ i, x.network.Holds i a
  /-- A live listener takes the oldest of what waits, or waits itself. -/
  taken {i : Nat} {l : Listener α} : x.network.listeners[i]? = some l → l.live = true →
    x.network.accept i = l.queue.head?.map fun first =>
      .ok (first, x.network.requeue i fun _ => l.queue.tail)
  /-- What was called is accepted or waits, once and in order. -/
  delivered {i : Nat} {l : Listener α} : x.network.listeners[i]? = some l → l.live = true →
    about x.accepts i ++ l.queue = about x.calls i
  /-- A dropped listener has accepted what was called first, and accepts nothing more. -/
  lost {i : Nat} {l : Listener α} : x.network.listeners[i]? = some l → l.live = false →
    about x.accepts i <+: about x.calls i ∧ l.queue = []
  named : (x.calls.map (·.2.2)).Nodup
  dropped (i j : Nat) (a : String) :
    (x.network.unbind i).2.Holds j a ↔ x.network.Holds j a ∧ j ≠ i

/-- Whatever is asked of a network, in whatever order, it can be relied on. -/
theorem network_reliable (events : List (Event α)) : (run events).Reliable where
  single := (tracks_run events).kept.single
  refused a := by
    have h := (tracks_run events).kept
    refine ⟨fun hb => ?_,fun ⟨i,hi⟩ => bind_held h hi⟩
    by_contra ha
    cases (bind_free h (not_exists.mp ha)).symm.trans hb
  bound ha := ⟨_,bind_free (tracks_run events).kept ha,fun _ _ => holds_extend⟩
  reached a c := by
    have h := (tracks_run events).kept
    refine ⟨fun hc => ?_,fun ⟨i,hi⟩ => by rw [connect_held h hi]⟩
    by_contra ha
    rw [connect_free h (not_exists.mp ha)] at hc
    cases hc
  taken := accept_live (tracks_run events).kept
  delivered hl live := by
    obtain ⟨lost,hv,hlost⟩ := (tracks_run events).visits hl
    rwa [hlost live,List.append_nil] at hv
  lost hl dead := by
    obtain ⟨lost,hv,-⟩ := (tracks_run events).visits hl
    have hnil := (tracks_run events).kept.emptied hl dead
    rw [hnil,List.append_nil] at hv
    exact ⟨⟨lost,hv⟩,hnil⟩
  named := by
    obtain ⟨numbers,hn,hd,-⟩ := (tracks_run events).named
    rw [hn]
    exact hd.map callerName_injective
  dropped i j a := by
    by_cases hi : ∃ b, (run events).network.Holds i b
    · obtain ⟨b,hb⟩ := hi
      rw [unbind_live hb,holds_without]
    · rw [unbind_dead (not_exists.mp hi)]
      refine ⟨fun hj => ⟨hj,?_⟩,And.left⟩
      rintro rfl
      exact hi ⟨a,hj⟩

end Chronicle

end Multiplex
