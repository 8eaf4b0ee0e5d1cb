import Multiplex.Token.Session
import Multiplex.Proofs.Grove

/-!
Sessions with cancellation tokens, over any sequence of commands and of steps that waits take. A
wait that sleeps on a token is told when the token fires, so that no wait oversleeps.
-/

namespace Multiplex

namespace Tokens

variable (t : Tokens) (i j : Nat)

theorem handles_release : (t.release i).handles j = t.handles j - if i = j then 1 else 0 := by
  rw [handles,release,getElem?_modify,handles]
  by_cases h : i = j
  · subst h
    cases t.all[i]? <;> simp
  · simp [h]

theorem handles_hold {t : Tokens} {i : Nat} (hi : t.isHeld i = true) (j : Nat) :
    (t.hold i).handles j = t.handles j + if i = j then 1 else 0 := by
  have hlt := lt_of_isHeld hi
  have hx : t.all[i]? = some t.all[i] := List.getElem?_eq_getElem hlt
  rw [handles,hold,getElem?_modify,handles]
  by_cases h : i = j
  · subst h
    simp [hx]
  · simp [h]

theorem handles_length : t.handles t.all.length = 0 := by
  rw [handles,List.getElem?_eq_none le_rfl]
  rfl

def releaseAll (t : Tokens) (ws : List TokenSession.Wait) : Tokens :=
  ws.foldl (fun t w => t.release w.token) t

section

variable (ws : List TokenSession.Wait)

theorem recounts_releaseAll : t.Recounts (t.releaseAll ws) := by
  induction ws generalizing t with
  | nil => exact .refl t
  | cons w ws ih => exact (t.recounts_release w.token).trans (ih (t.release w.token))

theorem handles_releaseAll :
    (t.releaseAll ws).handles i = t.handles i - ws.countP (·.token = i) := by
  induction ws generalizing t with
  | nil => rfl
  | cons w ws ih =>
    have hstep := ih (t.release w.token)
    rw [handles_release] at hstep
    rw [List.countP_cons]
    simp only [decide_eq_true_eq]
    exact hstep.trans (by omega)

theorem Grove.releaseAll {t : Tokens} (h : t.Grove) : (t.releaseAll ws).Grove := by
  induction ws generalizing t with
  | nil => exact h
  | cons w ws ih => exact ih (h.release w.token)

end

end Tokens

namespace TokenSession

namespace Wait

variable {t t' : Tokens} {w : Wait} {stage : Stage}

/-- Which wait it is, wherever it has got to. -/
def key (w : Wait) : Nat × Nat := (w.label, w.token)

/-- A wait has seen no more than there was, and one that sleeps on a token that has fired has not
seen all. -/
structure Heeds (t : Tokens) (w : Wait) : Prop where
  past : ∀ {seen : Nat}, w.stage = .registered seen ∨ w.stage = .asleep seen →
    seen ≤ t.signal w.token
  due : ∀ {seen : Nat}, w.stage = .asleep seen → t.isFired w.token = true → seen < t.signal w.token

theorem heeds_looking (t : Tokens) (label i : Nat) : Heeds t { label, token := i } :=
  ⟨by simp,by simp⟩

theorem Heeds.announces (h : w.Heeds t) (ha : t.Announces t' w.token) : w.Heeds t' := by
  refine ⟨fun hs => (h.past hs).trans ha.signal,fun hs hf => ?_⟩
  cases hun : t.isFired w.token with
  | true => exact (h.due hs hun).trans_le ha.signal
  | false => exact (h.past (.inr hs)).trans_lt (ha.told hun hf)

theorem isFired_of_ends (h : w.progress t = .ends) : t.isFired w.token = true := by
  unfold progress at h
  split at h
  · split at h
    · assumption
    · cases h
  · cases h
  · split at h
    · assumption
    · cases h
  · split at h <;> cases h

theorem Heeds.goes (h : w.Heeds t) (hp : w.progress t = .goes stage) :
    Heeds t { w with stage } := by
  unfold progress at hp
  split at hp
  · split at hp <;> cases hp
    exact ⟨by simp,by simp⟩
  · cases hp
    exact ⟨by simp,by simp⟩
  · rename_i seen hw
    split at hp <;> cases hp
    -- what fires after this look is told to those who are registered
    rename_i hun
    exact ⟨fun hs => h.past (.inl (by simpa [hw] using hs)),fun _ hf => absurd hf hun⟩
  · split at hp <;> cases hp
    exact ⟨by simp,by simp⟩

theorem Heeds.sleeps (h : w.Heeds t) (hp : w.progress t = .sleeps) : t.isFired w.token = false := by
  unfold progress at hp
  split at hp
  · split at hp <;> cases hp
  · cases hp
  · split at hp <;> cases hp
  · rename_i seen hw
    split at hp
    · rename_i hsame
      by_contra hf
      have hlt := h.due hw (Bool.eq_true_of_not_eq_false hf)
      omega
    · cases hp

theorem progress_congr (h : t.Recounts t') : w.progress t' = w.progress t := by
  unfold progress
  rw [h.fired,h.signal]

/-- A wait that goes on until it sleeps has either found that its token has fired, and is through,
or it sleeps. -/
theorem Heeds.rest (h : w.Heeds t) : (w.rest t = none → t.isFired w.token = true) ∧
    ∀ v, w.rest t = some v → v.key = w.key ∧ v.Heeds t ∧ v.progress t = .sleeps := by
  fun_induction Wait.rest t w with
  | case1 w hp => exact ⟨fun _ => isFired_of_ends hp,by simp⟩
  | case2 w stage hp _ ih => exact ih (h.goes hp)
  | case3 w hp =>
    refine ⟨by simp,?_⟩
    rintro v ⟨⟩
    exact ⟨rfl,h,hp⟩

/-- Every wait is either through or sleeps. -/
theorem perm_rest (t : Tokens) (ws : List Wait) (h : ∀ w ∈ ws, w.Heeds t) :
    ((ws.filter fun w => (w.rest t).isNone).map key ++ (ws.filterMap (·.rest t)).map key).Perm
      (ws.map key) := by
  induction ws with
  | nil => rfl
  | cons w ws ih =>
    have hws := ih fun v hv => h v (by simp [hv])
    cases hr : w.rest t with
    | none => simpa [hr] using hws
    | some v =>
      obtain ⟨hkey,-⟩ := (h w (by simp)).rest.2 v hr
      simp only [List.filter_cons,List.filterMap_cons,hr,Option.isNone_some,Bool.false_eq_true,
        if_false,List.map_cons,hkey]
      exact List.perm_middle.trans (hws.cons _)

theorem map_key_set {ws : List Wait} {n : Nat} (h : ws[n]? = some w) (stage : Stage) :
    (ws.set n { w with stage }).map key = ws.map key := by
  obtain ⟨hlt,rfl⟩ := List.getElem?_eq_some_iff.mp h
  have hset := List.set_getElem_self (show n < (ws.map key).length by simpa using hlt)
  rw [List.map_set]
  simpa [key] using hset

theorem countP_key (ws : List Wait) (i : Nat) :
    (ws.map key).countP (·.2 = i) = ws.countP (·.token = i) := by
  rw [List.countP_map]
  rfl

end Wait

variable {s : TokenSession}

/-- Whether a name or a wait that has not ended holds a token. -/
def Held (s : TokenSession) (i : Nat) : Prop :=
  (∃ name, (name, i) ∈ s.names) ∨ ∃ w ∈ s.waits, w.token = i

/-- Whether `b` is a child of `a` that is held. -/
def Leads (s : TokenSession) (a b : Nat) : Prop := s.tokens.parent? b = some a ∧ s.Held b

/-- Whether no wait can go on by itself. -/
def Quiescent (s : TokenSession) : Prop := ∀ n, s.wake n = ([], s)

/-- What can happen in a session. -/
inductive Event
  | ask (label : Nat) (command : Command)
  /-- One wait takes a step. -/
  | wake (n : Nat)
  /-- Everything goes on as far as it can. -/
  | settle

def begins (s : TokenSession) (label : Nat) : Command → Option (Nat × Nat)
  | .wait name => (s.names.lookup name).map fun i => (label, i)
  | _ => none

/-- A session, with the waits that were begun and those that have ended. -/
structure Course where
  session : TokenSession := {}
  begun : List (Nat × Nat) := []
  ended : List (Nat × Nat) := []

namespace Course

def go (x : Course) (ended : List Wait) (session : TokenSession) : Course :=
  { x with session, ended := ended.map Wait.key ++ x.ended }

def step (x : Course) : Event → Course
  | .ask label command =>
    { x with
      session := x.session.apply label command
      begun := (x.session.begins label command).toList ++ x.begun }
  | .wake n => x.go (x.session.wake n).1 (x.session.wake n).2
  | .settle => x.go x.session.settle.1 x.session.settle.2

def run (x : Course) (events : List Event) : Course := events.foldl step x

end Course

/-- The tokens form a forest, and are held as often as they are counted. A token in `hand` is held
once more, by a command that is not through. -/
structure Fair (hand : Option Nat) (s : TokenSession) : Prop where
  grove : s.tokens.Grove
  distinct : (s.names.map (·.1)).Nodup
  counted : ∀ i, s.tokens.handles i =
    s.names.countP (·.2 = i) + s.waits.countP (·.token = i) + if hand = some i then 1 else 0
  heeds : ∀ w ∈ s.waits, w.Heeds s.tokens

section Names

variable {names : List (String × Nat)} {name : String} {i : Nat}

theorem filter_of_notMem (h : ∀ entry ∈ names, (name != entry.1) = true) :
    names.filter (·.1 ≠ name) = names := by
  refine List.filter_eq_self.mpr fun entry hmem => ?_
  simpa using (bne_iff_ne.mp (h entry hmem)).symm

theorem countP_filter (hd : (names.map (·.1)).Nodup) (h : names.lookup name = some i) (j : Nat) :
    (names.filter (·.1 ≠ name)).countP (·.2 = j) + (if i = j then 1 else 0) =
      names.countP (·.2 = j) := by
  obtain ⟨before,after,rfl,hbefore⟩ := List.lookup_eq_some_iff.mp h
  have hafter : ∀ entry ∈ after, (name != entry.1) = true := by
    intro entry hmem
    rw [List.map_append,List.map_cons] at hd
    refine bne_iff_ne.mpr fun he => ?_
    exact (List.nodup_cons.mp hd.of_append_right).1 (List.mem_map.mpr ⟨entry,hmem,he.symm⟩)
  rw [List.filter_append,List.filter_cons_of_neg (by simp),filter_of_notMem hbefore,
    filter_of_notMem hafter,List.countP_append,List.countP_append,List.countP_cons]
  simp only [decide_eq_true_eq]
  omega

theorem nodup_filter (hd : (names.map (·.1)).Nodup) :
    ((names.filter (·.1 ≠ name)).map (·.1)).Nodup :=
  hd.sublist (List.filter_sublist.map _)

end Names

namespace Fair

variable {hand : Option Nat} {i : Nat}

theorem isHeld_iff (h : s.Fair none) : s.tokens.isHeld i = true ↔ s.Held i := by
  have hnames : 0 < s.names.countP (·.2 = i) ↔ ∃ name, (name, i) ∈ s.names := by
    simp [List.countP_pos_iff]
  have hwaits : 0 < s.waits.countP (·.token = i) ↔ ∃ w ∈ s.waits, w.token = i := by
    simp [List.countP_pos_iff]
  rw [Tokens.isHeld_iff,h.counted i,Held,← hnames,← hwaits]
  simp only [reduceCtorEq,if_false]
  omega

theorem held_of_lookup (h : s.Fair none) {name : String} (hl : s.names.lookup name = some i) :
    s.tokens.isHeld i = true := by
  obtain ⟨before,after,heq,-⟩ := List.lookup_eq_some_iff.mp hl
  exact h.isHeld_iff.mpr (.inl ⟨name,by simp [heq]⟩)

theorem bind (h : s.Fair (some i)) (name : String) : (s.bind name i).Fair none := by
  have hdistinct : (((name, i) :: s.names.filter (·.1 ≠ name)).map (·.1)).Nodup := by
    rw [List.map_cons,List.nodup_cons]
    exact ⟨by simp,nodup_filter h.distinct⟩
  unfold TokenSession.bind
  cases hl : s.names.lookup name with
  | none =>
    refine ⟨h.grove,hdistinct,fun j => ?_,h.heeds⟩
    have hc := h.counted j
    rw [filter_of_notMem (List.lookup_eq_none_iff.mp hl),List.countP_cons]
    simp only [Option.some.injEq,decide_eq_true_eq,reduceCtorEq,if_false] at hc ⊢
    omega
  | some old =>
    refine ⟨h.grove.release old,hdistinct,fun j => ?_,
      fun w hw => (h.heeds w hw).announces ((s.tokens.recounts_release old).announces w.token)⟩
    have hc := h.counted j
    have hf := countP_filter h.distinct hl j
    rw [Tokens.handles_release,List.countP_cons]
    simp only [Option.some.injEq,decide_eq_true_eq,reduceCtorEq,if_false] at hc ⊢
    omega

end Fair

theorem recounts_bind (s : TokenSession) (name : String) (i : Nat) :
    s.tokens.Recounts (s.bind name i).tokens := by
  unfold bind
  dsimp only
  split
  · exact s.tokens.recounts_release _
  · exact .refl s.tokens

theorem waits_bind (s : TokenSession) (name : String) (i : Nat) :
    (s.bind name i).waits = s.waits := by
  unfold bind
  dsimp only
  split <;> rfl

/-- How a session goes on in which waits are `begun` and others have `ended`. What has fired stays
so, and no wait is lost. -/
structure Goes (hand : Option Nat) (begun ended : List (Nat × Nat)) (s s' : TokenSession) :
    Prop where
  fair : s'.Fair hand
  announces : ∀ i, s.tokens.Announces s'.tokens i
  kept : (ended ++ s'.waits.map Wait.key).Perm (begun ++ s.waits.map Wait.key)
  ended : ∀ w ∈ ended, s.tokens.isFired w.2 = true

namespace Goes

variable {i : Nat} {s' : TokenSession}

theorem bind (h : Goes (some i) [] [] s s') (name : String) :
    Goes none [] [] s (s'.bind name i) where
  fair := h.fair.bind name
  announces j := (h.announces j).trans ((recounts_bind s' name i).announces j)
  kept := (waits_bind ..).symm ▸ h.kept
  ended := h.ended

section

variable (h : s.Fair none)

include h

/-- The waits stay where they are. -/
theorem of_waits {hand : Option Nat} (grove : s'.tokens.Grove)
    (distinct : (s'.names.map (·.1)).Nodup) (counted : ∀ i, s'.tokens.handles i =
      s'.names.countP (·.2 = i) + s.waits.countP (·.token = i) + if hand = some i then 1 else 0)
    (ha : ∀ i, s.tokens.Announces s'.tokens i) (hw : s'.waits = s.waits) :
    Goes hand [] [] s s' := by
  refine ⟨⟨grove,distinct,by rwa [hw],fun w hmem => ?_⟩,ha,by rw [hw],by simp⟩
  rw [hw] at hmem
  exact (h.heeds w hmem).announces (ha w.token)

theorem same : Goes none [] [] s s :=
  ⟨h,fun _ => .of_eq rfl rfl,.refl _,by simp⟩

theorem grow {x : Token} {t : Tokens} (ht : t.Grove) (hj : s.tokens.Joins x t) (hx : x.handles = 1)
    (hfire : x.fired = true → 0 < x.changes) :
    Goes (some s.tokens.all.length) [] [] s { s with tokens := t } := by
  refine of_waits h ht h.distinct (fun i => ?_) (hj.announces hfire) rfl
  have hc := h.counted i
  simp only [hj.handles,hx,Option.some.injEq,reduceCtorEq,if_false] at hc ⊢
  by_cases hi : i = s.tokens.all.length
  · subst hi
    rw [s.tokens.handles_length] at hc
    simp only [if_true]
    omega
  · rw [if_neg hi,if_neg (Ne.symm hi)]
    exact hc

theorem hold (hi : s.tokens.isHeld i = true) :
    Goes (some i) [] [] s { s with tokens := s.tokens.hold i } := by
  refine of_waits h (h.grove.hold hi) h.distinct (fun j => ?_)
    (s.tokens.recounts_hold i).announces rfl
  have hc := h.counted j
  have hh := Tokens.handles_hold hi j
  simp only [Option.some.injEq,reduceCtorEq,if_false] at hc ⊢
  omega

theorem apply (label : Nat) (command : Command) :
    Goes none (s.begins label command).toList [] s (s.apply label command) := by
  unfold TokenSession.apply
  cases command with
  | new name => exact (grow h h.grove.new (s.tokens.joins_add rfl) rfl nofun).bind name
  | child name parent =>
    dsimp only
    split
    · rename_i p hp
      have hlt := Tokens.lt_of_isHeld (h.held_of_lookup hp)
      rw [Tokens.child_fst]
      exact (grow h (h.grove.child hlt) (Tokens.joins_child hlt).1 Tokens.handles_childOf
        Tokens.changes_childOf).bind name
    · exact same h
  | copy name source =>
    dsimp only
    split
    · rename_i i hi
      exact (hold h (h.held_of_lookup hi)).bind name
    · exact same h
  | drop name =>
    dsimp only
    split
    · rename_i i hi
      refine of_waits h (h.grove.release i) (nodup_filter h.distinct) (fun j => ?_)
        (s.tokens.recounts_release i).announces rfl
      have hc := h.counted j
      have hf := countP_filter h.distinct hi j
      rw [Tokens.handles_release]
      simp only [reduceCtorEq,if_false] at hc ⊢
      omega
    · exact same h
  | wait name =>
    dsimp only
    cases hi : s.names.lookup name with
    | some i =>
      have hh := hold h (h.held_of_lookup hi)
      refine ⟨{ hh.fair with counted := fun j => ?_, heeds := fun w hw => ?_ },hh.announces,?_,
        by simp⟩
      · have hc := hh.fair.counted j
        rw [List.countP_append,List.countP_singleton]
        simp only [Option.some.injEq,decide_eq_true_eq,reduceCtorEq,if_false] at hc ⊢
        omega
      · rcases List.mem_append.mp hw with hw | hw
        · exact hh.fair.heeds w hw
        · rw [List.mem_singleton] at hw
          subst hw
          exact Wait.heeds_looking _ label i
      · rw [List.map_append]
        simp [begins,hi,Wait.key]
    | none =>
      simp only [begins,hi]
      exact same h
  | cancel name =>
    dsimp only
    split
    · rename_i r hr
      have hs := (h.grove.cancelled r).spreads
      refine of_waits h (h.grove.cancel r) h.distinct (fun j => ?_) hs.announces rfl
      rw [hs.handles]
      exact h.counted j
    · exact same h

/-- Some waits have ended, and the others are where they were or have gone on. -/
theorem ending (ended : List Wait) {waits : List Wait}
    (hperm : (ended.map Wait.key ++ waits.map Wait.key).Perm (s.waits.map Wait.key))
    (hheeds : ∀ w ∈ waits, w.Heeds s.tokens)
    (hfired : ∀ w ∈ ended, s.tokens.isFired w.token = true) :
    Goes none [] (ended.map Wait.key) s
      { s with waits, tokens := s.tokens.releaseAll ended } := by
  have hr := s.tokens.recounts_releaseAll ended
  refine ⟨⟨h.grove.releaseAll ended,h.distinct,fun j => ?_,
    fun w hw => (hheeds w hw).announces (hr.announces w.token)⟩,hr.announces,hperm,?_⟩
  · have hc := h.counted j
    have hcount := hperm.countP_eq (·.2 = j)
    rw [List.countP_append,Wait.countP_key,Wait.countP_key,Wait.countP_key] at hcount
    rw [Tokens.handles_releaseAll]
    simp only [reduceCtorEq,if_false] at hc ⊢
    omega
  · intro k hk
    obtain ⟨w,hw,rfl⟩ := List.mem_map.mp hk
    exact hfired w hw

theorem wake (n : Nat) : Goes none [] ((s.wake n).1.map Wait.key) s (s.wake n).2 := by
  unfold TokenSession.wake
  cases hn : s.waits[n]? with
  | none => exact same h
  | some w =>
    obtain ⟨hlt,hw⟩ := List.getElem?_eq_some_iff.mp hn
    have hheeds : w.Heeds s.tokens := h.heeds w (List.mem_of_getElem? hn)
    dsimp only
    cases hp : w.progress s.tokens with
    | ends =>
      have hperm := (List.getElem_cons_eraseIdx_perm hlt).map Wait.key
      rw [hw] at hperm
      exact ending h [w] hperm (fun v hv => h.heeds v (List.mem_of_mem_eraseIdx hv))
        (by simpa using Wait.isFired_of_ends hp)
    | goes stage =>
      refine ending h [] (.of_eq (Wait.map_key_set hn stage)) (fun v hv => ?_) (by simp)
      rcases List.mem_or_eq_of_mem_set hv with hv | rfl
      · exact h.heeds v hv
      · exact hheeds.goes hp
    | sleeps => exact same h

theorem settle : Goes none [] (s.settle.1.map Wait.key) s s.settle.2 := by
  refine ending h _ (Wait.perm_rest s.tokens s.waits h.heeds) (fun v hv => ?_) (fun w hw => ?_)
  · obtain ⟨w,hw,hv⟩ := List.mem_filterMap.mp hv
    exact ((h.heeds w hw).rest.2 v hv).2.1
  · obtain ⟨hw,hnone⟩ := List.mem_filter.mp hw
    exact (h.heeds w hw).rest.1 (Option.isNone_iff_eq_none.mp hnone)

end

end Goes

namespace Course

variable {x : Course} {i : Nat}

/-- How a session stands. -/
structure Sound (x : Course) : Prop where
  fair : x.session.Fair none
  accounted : (x.ended ++ x.session.waits.map Wait.key).Perm x.begun
  ended : ∀ w ∈ x.ended, x.session.tokens.isFired w.2 = true

theorem goes_step (h : x.session.Fair none) (e : Event) : ∃ begun ended,
    (x.step e).begun = begun ++ x.begun ∧ (x.step e).ended = ended ++ x.ended ∧
      Goes none begun ended x.session (x.step e).session := by
  cases e with
  | ask label command => exact ⟨_,[],rfl,rfl,.apply h label command⟩
  | wake n => exact ⟨[],_,rfl,rfl,.wake h n⟩
  | settle => exact ⟨[],_,rfl,rfl,.settle h⟩

theorem Sound.step (h : x.Sound) (e : Event) : (x.step e).Sound := by
  obtain ⟨begun,ended,hbegun,hended,hgoes⟩ := goes_step h.fair e
  refine ⟨hgoes.fair,?_,fun w hw => (hgoes.announces w.2).fired ?_⟩
  · rw [hbegun,hended,List.append_assoc]
    have hwaits := hgoes.kept.append_left x.ended
    have hbefore := h.accounted.append_left begun
    exact (List.perm_append_comm_assoc ..).trans
      (hwaits.trans ((List.perm_append_comm_assoc ..).trans hbefore))
  · rw [hended,List.mem_append] at hw
    exact hw.elim (hgoes.ended w) (h.ended w)

theorem sound_initial : Sound {} := by
  refine ⟨⟨⟨⟨?_,?_,?_⟩,?_⟩,by simp,?_,by simp⟩,by simp,by simp⟩
  · intro a b h
    simp [Tokens.parent?] at h
  · intro a b h
    simp [Tokens.children] at h
  · intro a b h
    simp [Tokens.Leads,Tokens.parent?] at h
  · intro a b h
    simp [Tokens.Leads,Tokens.parent?] at h
  · intro i
    simp [Tokens.handles]

theorem Sound.run (h : x.Sound) (events : List Event) : (x.run events).Sound := by
  induction events generalizing x with
  | nil => exact h
  | cons e events ih => exact ih (h.step e)

theorem isFired_run (h : x.Sound) (events : List Event) (hi : x.session.tokens.isFired i = true) :
    (x.run events).session.tokens.isFired i = true := by
  induction events generalizing x with
  | nil => exact hi
  | cons e events ih =>
    obtain ⟨_,_,-,-,hgoes⟩ := goes_step h.fair e
    exact ih (h.step e) ((hgoes.announces i).fired hi)

/-- Where every wait that is left sleeps, those that have ended are those whose tokens have
fired. -/
theorem Sound.filter (h : x.Sound)
    (hs : ∀ w ∈ x.session.waits, w.progress x.session.tokens = .sleeps) :
    x.ended.Perm (x.begun.filter fun w => x.session.tokens.isFired w.2) ∧
      (x.session.waits.map Wait.key).Perm
        (x.begun.filter fun w => !x.session.tokens.isFired w.2) := by
  have hwaits : ∀ k ∈ x.session.waits.map Wait.key, x.session.tokens.isFired k.2 = false := by
    intro k hk
    obtain ⟨w,hw,rfl⟩ := List.mem_map.mp hk
    exact (h.fair.heeds w hw).sleeps (hs w hw)
  have hended := h.ended
  constructor
  · refine .trans ?_ (h.accounted.filter _)
    rw [List.filter_append,List.filter_eq_self.mpr hended,
      List.filter_eq_nil_iff.mpr fun k hk => by simp [hwaits k hk],List.append_nil]
  · refine .trans ?_ (h.accounted.filter _)
    rw [List.filter_append,List.filter_eq_nil_iff.mpr fun k hk => by simp [hended k hk],
      List.filter_eq_self.mpr fun k hk => by simp [hwaits k hk],List.nil_append]

end Course

theorem quiescent_iff : s.Quiescent ↔ ∀ w ∈ s.waits, w.progress s.tokens = .sleeps := by
  constructor
  · intro h w hw
    obtain ⟨n,hn⟩ := List.mem_iff_getElem?.mp hw
    have hx := h n
    simp only [wake,hn] at hx
    cases hp : w.progress s.tokens with
    | ends => simp [hp] at hx
    | goes stage =>
      -- a step leads to another stage
      simp only [hp,Prod.mk.injEq,true_and] at hx
      have hset := congrArg (fun y => y.waits[n]?) hx
      obtain ⟨hlt,-⟩ := List.getElem?_eq_some_iff.mp hn
      simp only [List.getElem?_set_self hlt,hn,Option.some.injEq] at hset
      have hahead := w.ahead_lt hp
      rw [← hset] at hahead
      exact absurd hahead (lt_irrefl _)
    | sleeps => rfl
  · intro h n
    unfold wake
    cases hn : s.waits[n]? with
    | none => rfl
    | some w => simp only [h w (List.mem_of_getElem? hn)]

theorem Fair.quiescent_settle (h : s.Fair none) : s.settle.2.Quiescent := by
  refine quiescent_iff.mpr fun v hv => ?_
  obtain ⟨w,hw,hv⟩ := List.mem_filterMap.mp hv
  have hsleeps := ((h.heeds w hw).rest.2 v hv).2.2
  exact (Wait.progress_congr (s.tokens.recounts_releaseAll _)).trans hsleeps

section Commands

/-- Steps down are the same whether holders are counted or looked up. -/
theorem Fair.leads (h : s.Fair none) : s.tokens.Leads = s.Leads := by
  funext a b
  rw [Tokens.Leads,Leads,h.isHeld_iff]

theorem Fair.isFired_cancel (h : s.Fair none) (label : Nat) {name : String} {r : Nat}
    (hr : s.names.lookup name = some r) (i : Nat) :
    (s.apply label (.cancel name)).tokens.isFired i = true ↔
      s.tokens.isFired i = true ∨ Relation.ReflTransGen s.Leads r i := by
  have hlt := Tokens.lt_of_isHeld (h.held_of_lookup hr)
  rw [← h.leads]
  simp only [TokenSession.apply,hr]
  exact h.grove.isFired_cancel hlt i

theorem lookup_bind (s : TokenSession) (name : String) (i : Nat) :
    (s.bind name i).names.lookup name = some i := by
  unfold bind
  dsimp only
  split <;> simp

theorem apply_child (label : Nat) (name : String) {parent : String} {p : Nat}
    (hp : s.names.lookup parent = some p) :
    s.apply label (.child name parent) =
      { s with tokens := (s.tokens.child p).2 }.bind name s.tokens.all.length := by
  simp only [TokenSession.apply,hp]
  rw [Tokens.child_fst]

end Commands

/-- A token that fires takes along what hangs on it by tokens that are held, and nothing else. -/
theorem cancels_exactly (events more : List Event) :
    let x := Course.run {} events
    let s := x.session
    (∀ (label : Nat) (name : String) (r : Nat), s.names.lookup name = some r → ∀ i,
        ((s.apply label (.cancel name)).tokens.isFired i = true ↔
          s.tokens.isFired i = true ∨ Relation.ReflTransGen s.Leads r i)) ∧
      (∀ i, s.tokens.isFired i = true → (x.run more).session.tokens.isFired i = true) ∧
      (∀ (label : Nat) (name parent : String) (p : Nat), s.names.lookup parent = some p →
        let s' := s.apply label (.child name parent)
        let new := s.tokens.all.length
        s'.names.lookup name = some new ∧ s'.tokens.parent? new = some p ∧
          s'.tokens.isFired new = s.tokens.isFired p ∧
          ∀ a b, b ∈ s.tokens.children a → s.Held b → b ∈ s'.tokens.children a) ∧
      (∀ a b, s.Leads a b → s.tokens.isFired a = false → b ∈ s.tokens.children a) ∧
      (∀ a b, s.Leads a b → s.tokens.isFired a = true → s.tokens.isFired b = true) ∧
      (s.Quiescent → x.ended.Perm (x.begun.filter fun w => s.tokens.isFired w.2) ∧
        (s.waits.map Wait.key).Perm (x.begun.filter fun w => !s.tokens.isFired w.2)) ∧
      s.settle.2.Quiescent := by
  intro x s
  have hx : x.Sound := Course.sound_initial.run events
  have hf : s.Fair none := hx.fair
  refine ⟨fun label name r hr i => hf.isFired_cancel label hr i,
    fun i hi => Course.isFired_run hx more hi,?_,?_,?_,
    fun hq => hx.filter (quiescent_iff.mp hq),hf.quiescent_settle⟩
  · intro label name parent p hp s' new
    have hs' : s' = _ := apply_child label name hp
    have hjoins := (Tokens.joins_child (Tokens.lt_of_isHeld (hf.held_of_lookup hp))).1
    have hbind := recounts_bind { s with tokens := (s.tokens.child p).2 } name new
    rw [hs',lookup_bind,hbind.parent,hbind.fired,hjoins.parent,hjoins.fired]
    refine ⟨rfl,(if_pos rfl).trans Tokens.parent_childOf,(if_pos rfl).trans Tokens.fired_childOf,
      fun a b hb hheld => ?_⟩
    rw [hbind.children]
    exact hjoins.kept hb (hf.isHeld_iff.mpr hheld)
  · rw [← hf.leads]
    exact fun a b => hf.grove.listed
  · rw [← hf.leads]
    exact fun a b => hf.grove.followed

/-- A root with two children, one of which nobody holds any more. Two waits sleep: one on a child of
that one, and one on the other. -/
def orphaning : List Event :=
  [.ask 0 (.new "root"), .ask 1 (.child "lost" "root"), .ask 2 (.child "orphan" "lost"),
    .ask 3 (.child "kept" "root"), .ask 4 (.wait "orphan"), .ask 5 (.wait "kept"),
    .ask 6 (.drop "orphan"), .ask 7 (.drop "lost"), .ask 8 (.drop "kept"),
    .wake 0, .wake 0, .wake 0, .wake 1, .wake 1, .wake 1]

/-- The root fires, and the wait that is told of it goes on. -/
def firing : List Event := [.ask 9 (.cancel "root"), .wake 1, .wake 1]

/-- The one that is waited on by way of the root follows it, the orphan does not, and only the first
wait ends. -/
theorem cancels_exactly_orphan :
    let x := Course.run {} orphaning
    let s := x.session
    let y := Course.run {} (orphaning ++ firing)
    s.names.lookup "root" = some 0 ∧
      (s.apply 9 (.cancel "root")).tokens.isFired 3 = true ∧
      (s.apply 9 (.cancel "root")).tokens.isFired 2 = false ∧
      s.Quiescent ∧ x.ended = [] ∧ y.session.Quiescent ∧ y.ended = [(5, 3)] := by
  intro x s y
  have hr : s.names.lookup "root" = some 0 := by decide +kernel
  have hfires := (cancels_exactly orphaning []).1 9 "root" 0 hr
  have hkept : s.Leads 0 3 :=
    ⟨by decide +kernel,.inr ⟨⟨5,3,.asleep 0⟩,by decide +kernel,rfl⟩⟩
  have hasleep : s.Quiescent := quiescent_iff.mpr (by decide +kernel)
  have htold : y.session.Quiescent := quiescent_iff.mpr (by decide +kernel)
  obtain ⟨-,-,-,-,-,hbefore,-⟩ := cancels_exactly orphaning []
  obtain ⟨-,-,-,-,-,hafter,-⟩ := cancels_exactly (orphaning ++ firing) []
  have hnone : (x.begun.filter fun w => s.tokens.isFired w.2) = [] := by decide +kernel
  have hone : (y.begun.filter fun w => y.session.tokens.isFired w.2) = [(5, 3)] := by decide +kernel
  refine ⟨hr,(hfires 3).mpr (.inr (.single hkept)),?_,hasleep,
    (hnone ▸ (hbefore hasleep).1).eq_nil,htold,(hone ▸ (hafter htold).1).eq_singleton⟩
  rw [← Bool.not_eq_true,hfires 2,not_or]
  refine ⟨by decide +kernel,fun hb => ?_⟩
  -- the only step that leads to the orphan starts at a token that nobody holds
  obtain hb | ⟨a,hb,hlast⟩ := hb.cases_tail
  · cases hb
  · have hparent : s.tokens.parent? 2 = some 1 := by decide +kernel
    cases hparent.symm.trans hlast.1
    obtain hb | ⟨a,-,hlost⟩ := hb.cases_tail
    · cases hb
    · have hunheld : ¬s.Held 1 := by
        rintro (⟨name,hn⟩ | ⟨w,hw,hl⟩)
        · have hnames : s.names = [("root", 0)] := by decide +kernel
          simp [hnames] at hn
        · have hwaits : s.waits = [⟨4,2,.asleep 0⟩,⟨5,3,.asleep 0⟩] := by decide +kernel
          simp only [hwaits,List.mem_cons,List.not_mem_nil,or_false] at hw
          rcases hw with rfl | rfl <;> cases hl
      exact hunheld hlost.2

end TokenSession

end Multiplex
