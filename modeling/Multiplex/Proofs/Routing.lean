import Multiplex.Rpc.Routes
import Mathlib.Data.List.Induction

/-!
Which service a router passes a request on to: the one that was last mapped to the path of the
request, else the one that was last mounted at the longest path above it.
-/

namespace Multiplex.Rpc

section Paths

variable {cs : List Char}

theorem dropWhile_of_bare (h : cs.head? ≠ some '/') : cs.dropWhile (· == '/') = cs := by
  cases cs with
  | nil => rfl
  | cons c cs => exact List.dropWhile_cons_of_neg (by simpa using h)

theorem trimSlashes_of_bare (hhead : cs.head? ≠ some '/') (hlast : cs.getLast? ≠ some '/') :
    trimSlashes cs = cs := by
  unfold trimSlashes
  rw [dropWhile_of_bare hhead,dropWhile_of_bare (by rwa [List.head?_reverse]),List.reverse_reverse]

theorem head?_dropWhile_ne (cs : List Char) : (cs.dropWhile (· == '/')).head? ≠ some '/' := by
  intro h
  have hne : cs.dropWhile (· == '/') ≠ [] := by
    intro hnil
    rw [hnil] at h
    cases h
  have hfirst := List.head_dropWhile_not (· == '/') hne
  rw [List.head?_eq_some_head hne] at h
  rw [Option.some.inj h] at hfirst
  simp at hfirst

theorem trimSlashes_bare (cs : List Char) :
    (trimSlashes cs).head? ≠ some '/' ∧ (trimSlashes cs).getLast? ≠ some '/' := by
  unfold trimSlashes
  generalize hd : cs.dropWhile (· == '/') = front
  have hfront : front.head? ≠ some '/' := hd ▸ head?_dropWhile_ne cs
  constructor
  · -- the front of what is left is the front of what was there
    intro h
    obtain ⟨ys,hys⟩ := List.dropWhile_suffix (l := front.reverse) (· == '/')
    have hsplit : front = (front.reverse.dropWhile (· == '/')).reverse ++ ys.reverse := by
      rw [← List.reverse_append,hys,List.reverse_reverse]
    rw [hsplit] at hfront
    refine hfront ?_
    rw [List.head?_append,h]
    rfl
  · rw [List.getLast?_reverse]
    exact head?_dropWhile_ne _

theorem toList_normalizePath (path : String) :
    (normalizePath path).toList = '/' :: trimSlashes path.toList := by
  simp [normalizePath]

theorem normalizePath_normalizePath (path : String) :
    normalizePath (normalizePath path) = normalizePath path := by
  obtain ⟨hhead,hlast⟩ := trimSlashes_bare path.toList
  have hagain : trimSlashes ('/' :: trimSlashes path.toList) = trimSlashes path.toList := by
    have hdrop : ('/' :: trimSlashes path.toList).dropWhile (· == '/') =
        (trimSlashes path.toList).dropWhile (· == '/') := List.dropWhile_cons_of_pos (by simp)
    have hbare := trimSlashes_of_bare hhead hlast
    unfold trimSlashes at hbare hdrop ⊢
    rw [hdrop,hbare]
  rw [normalizePath,toList_normalizePath,hagain]
  rfl

theorem Address.after?_eq_some_iff {front rest : List Char} :
    Address.after? front cs = some rest ↔ cs = front ++ rest := by
  fun_induction Address.after? front cs with
  | case1 cs => exact ⟨fun h => Option.some.inj h,fun h => congrArg some h⟩
  | case2 f front => simp
  | case3 front c cs ih => simpa using ih
  | case4 f front c cs hne => simp [Ne.symm hne]

end Paths

/-- Whether a service mounted at `base` takes the requests for `path`: at the root it takes all,
else those for `base` itself and for the paths whose first segments are those of `base`. -/
def Covers (base path : String) : Prop :=
  base = "/" ∨ path = base ∨ ∃ rest, path.toList = base.toList ++ '/' :: rest

namespace Routes

variable {σ : Type}

theorem isUnder_iff {path base : String} : isUnder path base = true ↔ Covers base path := by
  have hsame : path = base ↔ path.toList = base.toList ++ [] := by
    rw [List.append_nil,String.toList_inj]
  unfold isUnder Covers
  rw [Bool.or_eq_true,decide_eq_true_iff,hsame]
  refine or_congr_right ?_
  split
  · next h =>
    exact ⟨fun _ => .inl (Address.after?_eq_some_iff.1 h),fun _ => rfl⟩
  · next c rest h =>
    have hsplit := Address.after?_eq_some_iff.1 h
    simp only [hsplit,List.append_cancel_left_eq,decide_eq_true_iff]
    simp
  · next h =>
    have hnot rest : path.toList ≠ base.toList ++ rest := fun hr => by
      cases (Address.after?_eq_some_iff.2 hr).symm.trans h
    simp only [hnot,exists_false,or_self]
    simp

section Insert

variable {path q : String} {value v : σ} {entries : List (String × σ)}

theorem lookup_cons_ite (p q : String) (v : σ) (rest : List (String × σ)) :
    ((p,v) :: rest).lookup q = if q = p then some v else rest.lookup q := by
  rw [List.lookup_cons]
  by_cases hq : q = p
  · simp [hq]
  · have hbeq : (q == p) = false := by simp [hq]
    simp only [hbeq,hq,if_false]

theorem lookup_insert (path q : String) (value : σ) (entries : List (String × σ)) :
    (insert path value entries).lookup q =
      if q = path then some value else entries.lookup q := by
  fun_induction insert path value entries with
  | case1 => rw [lookup_cons_ite]
  | case2 v rest =>
    rw [lookup_cons_ite,lookup_cons_ite]
    split <;> rfl
  | case3 p v rest hp ih =>
    rw [lookup_cons_ite,lookup_cons_ite,ih]
    by_cases hq : q = p
    · subst hq
      simp [hp]
    · simp [hq]

theorem fst_of_mem_insert {e : String × σ} (h : e ∈ insert path value entries) :
    e.1 = path ∨ e ∈ entries := by
  fun_induction insert path value entries with
  | case1 => simp at h; simp [h]
  | case2 v rest =>
    rcases List.mem_cons.1 h with rfl | h
    · exact .inl rfl
    · exact .inr (List.mem_cons_of_mem _ h)
  | case3 p v rest hp ih =>
    rcases List.mem_cons.1 h with rfl | h
    · exact .inr List.mem_cons_self
    · exact (ih h).imp_right (List.mem_cons_of_mem _)

theorem nodup_insert (h : (entries.map Prod.fst).Nodup) :
    ((insert path value entries).map Prod.fst).Nodup := by
  fun_induction insert path value entries with
  | case1 => simp
  | case2 v rest => exact h
  | case3 p v rest hp ih =>
    obtain ⟨hfresh,hrest⟩ := List.nodup_cons.1 h
    refine List.nodup_cons.2 ⟨fun hmem => ?_,ih hrest⟩
    obtain ⟨e,he,rfl⟩ := List.mem_map.1 hmem
    rcases fst_of_mem_insert he with hpath | hold
    · exact hp hpath
    · exact hfresh (List.mem_map.2 ⟨e,hold,rfl⟩)

theorem mem_iff_lookup (h : (entries.map Prod.fst).Nodup) :
    (q,v) ∈ entries ↔ entries.lookup q = some v := by
  induction entries with
  | nil => simp
  | cons e rest ih =>
    obtain ⟨p,w⟩ := e
    obtain ⟨hfresh,hrest⟩ := List.nodup_cons.1 h
    rw [lookup_cons_ite,List.mem_cons]
    by_cases hq : q = p
    · subst hq
      have hno : (q,v) ∉ rest := fun hmem => hfresh (List.mem_map.2 ⟨_,hmem,rfl⟩)
      simp [hno,eq_comm]
    · simp [hq,ih hrest]

end Insert

section Longest

theorem longest_cons_cons (first next : String × σ) (rest : List (String × σ)) :
    longest (first :: next :: rest) =
      if first.1.length ≤ next.1.length then longest (next :: rest)
        else longest (first :: rest) := by
  unfold longest
  simp only [List.foldl_cons]
  split <;> rfl

theorem longest_cons (first : String × σ) (rest : List (String × σ)) :
    ∃ e, longest (first :: rest) = some e ∧
      e ∈ first :: rest ∧ ∀ b ∈ first :: rest, b.1.length ≤ e.1.length := by
  induction rest generalizing first with
  | nil => exact ⟨first,rfl,by simp,by simp⟩
  | cons next rest ih =>
    rw [longest_cons_cons]
    split
    · next hle =>
      obtain ⟨e,he,hmem,hmax⟩ := ih next
      refine ⟨e,he,List.mem_cons_of_mem _ hmem,List.forall_mem_cons.2 ⟨?_,hmax⟩⟩
      exact Nat.le_trans hle (hmax next List.mem_cons_self)
    · next hlt =>
      obtain ⟨e,he,hmem,hmax⟩ := ih first
      obtain ⟨hfirst,hrest⟩ := List.forall_mem_cons.1 hmax
      refine ⟨e,he,?_,List.forall_mem_cons.2 ⟨hfirst,List.forall_mem_cons.2 ⟨by omega,hrest⟩⟩⟩
      rcases List.mem_cons.1 hmem with rfl | hmem
      · exact List.mem_cons_self
      · exact List.mem_cons_of_mem _ (List.mem_cons_of_mem _ hmem)

end Longest

end Routes

/-- One entry of a router under construction. -/
structure Registration (σ : Type) where
  /-- Also for the paths below. -/
  mounted : Bool
  path : String
  value : σ

namespace Registration

variable {σ : Type} {rs : List (Registration σ)}

/-- The place in the tables. Of two entries with one place, the later one counts. -/
def place (r : Registration σ) : Bool × String := (r.mounted,normalizePath r.path)

/-- The value that was last registered for a place. -/
def last? (rs : List (Registration σ)) (place : Bool × String) : Option σ :=
  ((rs.filter fun r => r.place = place).getLast?).map (·.value)

theorem last?_append (rs rs' : List (Registration σ)) (place : Bool × String) :
    last? (rs ++ rs') place = (last? rs' place).or (last? rs place) := by
  unfold last?
  rw [List.filter_append,List.getLast?_append,Option.map_or]

theorem last?_concat (rs : List (Registration σ)) (r : Registration σ) (place : Bool × String) :
    last? (rs ++ [r]) place = if place = r.place then some r.value else last? rs place := by
  rw [last?_append]
  by_cases h : r.place = place
  · subst h
    simp [last?]
  · simp [last?,h,Ne.symm h]

/-- Where no two entries share a place, what is registered is any of the entries. -/
theorem last?_eq_some_iff (hapart : rs.Pairwise fun a b => a.place ≠ b.place)
    {place : Bool × String} {v : σ} :
    last? rs place = some v ↔ ∃ r ∈ rs, r.place = place ∧ r.value = v := by
  induction rs using List.reverseRecOn with
  | nil => simp [last?]
  | append_singleton rs r ih =>
    obtain ⟨hbefore,-,hlast⟩ := List.pairwise_append.1 hapart
    rw [last?_concat]
    by_cases h : place = r.place
    · subst h
      have hno : ¬∃ a ∈ rs, a.place = r.place ∧ a.value = v := fun ⟨a,ha,hplace,_⟩ =>
        hlast a ha r (List.mem_singleton_self r) hplace
      simp [or_and_right,exists_or,hno]
    · simp [h,Ne.symm h,ih hbefore,or_and_right,exists_or]

theorem last?_perm {rs' : List (Registration σ)} (hperm : rs.Perm rs')
    (hapart : rs.Pairwise fun a b => a.place ≠ b.place) (place : Bool × String) :
    last? rs' place = last? rs place := by
  have hapart' : rs'.Pairwise fun a b => a.place ≠ b.place :=
    hperm.pairwise hapart fun h => h.symm
  refine Option.ext fun v => ?_
  rw [last?_eq_some_iff hapart',last?_eq_some_iff hapart]
  simp only [hperm.mem_iff]

end Registration

open Registration (last?)

namespace Routes

variable {σ : Type}

def add (t : Routes σ) (r : Registration σ) : Routes σ :=
  if r.mounted then t.mount r.path r.value else t.map r.path r.value

/-- The table after all registrations, in their order. -/
def build (rs : List (Registration σ)) : Routes σ := rs.foldl add {}

section

variable (rs : List (Registration σ))

theorem build_concat (r : Registration σ) : build (rs ++ [r]) = (build rs).add r := by
  simp [build]

theorem lookup_build (q : String) : (build rs).exact.lookup q = last? rs (false,q) ∧
    (build rs).mounted.lookup q = last? rs (true,q) := by
  induction rs using List.reverseRecOn with
  | nil => exact ⟨rfl,rfl⟩
  | append_singleton rs r ih =>
    rw [build_concat,Registration.last?_concat,Registration.last?_concat,add]
    cases hr : r.mounted <;> simp [map,mount,lookup_insert,Registration.place,hr,ih]

theorem nodup_mounted_build : ((build rs).mounted.map Prod.fst).Nodup := by
  induction rs using List.reverseRecOn with
  | nil => exact List.nodup_nil
  | append_singleton rs r ih =>
    rw [build_concat,add]
    split
    · exact nodup_insert ih
    · exact ih

end

theorem mem_mounted_build {rs : List (Registration σ)} {base : String} {v : σ} :
    (base,v) ∈ (build rs).mounted ↔ last? rs (true,base) = some v := by
  rw [mem_iff_lookup (nodup_mounted_build rs),(lookup_build rs base).2]

end Routes

/-- What the registrations `rs` give for the normalized path `path`. -/
inductive Chosen {σ : Type} (rs : List (Registration σ)) (path : String) : Option σ → Prop
  /-- The value last mapped to the path itself. -/
  | mapped {v : σ} (h : last? rs (false,path) = some v) : Chosen rs path (some v)
  /-- Else the value last mounted at the longest path above: the others above are prefixes of it. -/
  | below {base : String} {v : σ} (unmapped : last? rs (false,path) = none)
      (h : last? rs (true,base) = some v) (covers : Covers base path)
      (longest : ∀ b, (last? rs (true,b)).isSome → Covers b path → b.toList <+: base.toList) :
      Chosen rs path (some v)
  /-- Else nothing. -/
  | nothing (unmapped : last? rs (false,path) = none)
      (uncovered : ∀ b, (last? rs (true,b)).isSome → ¬Covers b path) : Chosen rs path none

section Resolving

variable {σ : Type} {rs : List (Registration σ)} {base path : String} {x : Option σ}

/-- What is above a normalized path is the front of it. -/
theorem Covers.isPrefix (h : Covers base (normalizePath path)) :
    base.toList <+: (normalizePath path).toList := by
  rcases h with rfl | h | ⟨rest,h⟩
  · rw [toList_normalizePath]
    exact List.prefix_append ['/'] _
  · exact h ▸ List.prefix_rfl
  · exact ⟨_,h.symm⟩

/-- The paths above one path are the fronts of each other, so one that is not shorter goes on. -/
theorem Covers.isPrefix_of_length_le {b : String} (hb : Covers b (normalizePath path))
    (hbase : Covers base (normalizePath path)) (hle : b.length ≤ base.length) :
    b.toList <+: base.toList :=
  List.prefix_of_prefix_length_le hb.isPrefix hbase.isPrefix
    (by simpa only [String.length_toList] using hle)

theorem Chosen.unique {y : Option σ} (hx : Chosen rs path x) (hy : Chosen rs path y) : x = y := by
  cases hx with
  | mapped h =>
    cases hy with
    | mapped h' => rw [← h,h']
    | below unmapped' _ _ _ => rw [h] at unmapped'; cases unmapped'
    | nothing unmapped' _ => rw [h] at unmapped'; cases unmapped'
  | below unmapped h covers longest =>
    rename_i base v
    cases hy with
    | mapped h' => rw [h'] at unmapped; cases unmapped
    | below unmapped' h' covers' longest' =>
      rename_i base' v'
      have hsame : base = base' := by
        have hto := longest' base (by simp [h]) covers
        have hfrom := longest base' (by simp [h']) covers'
        exact String.toList_inj.1 (hto.eq_of_length (Nat.le_antisymm hto.length_le hfrom.length_le))
      rw [← h,hsame,h']
    | nothing _ uncovered => exact absurd covers (uncovered base (by simp [h]))
  | nothing unmapped uncovered =>
    cases hy with
    | mapped h' => rw [h'] at unmapped; cases unmapped
    | below _ h' covers' _ => exact absurd covers' (uncovered _ (by simp [h']))
    | nothing _ _ => rfl

theorem Routes.chosen_resolve (rs : List (Registration σ)) (path : String) :
    Chosen rs (normalizePath path) ((Routes.build rs).resolve (normalizePath path)) := by
  generalize hq : normalizePath path = q
  unfold Routes.resolve
  rw [(lookup_build rs _).1]
  split
  · next v h => exact .mapped h
  · next unmapped =>
    -- the entries that remain are those mounted above the path
    have hmem b v : (b,v) ∈ (Routes.build rs).mounted.filter (fun e => isUnder q e.1) ↔
        last? rs (true,b) = some v ∧ Covers b q := by
      rw [List.mem_filter,mem_mounted_build,isUnder_iff]
    cases hentries : (Routes.build rs).mounted.filter (fun e => isUnder q e.1) with
    | nil =>
      refine .nothing unmapped fun b hb hcovers => ?_
      obtain ⟨v,hv⟩ := Option.isSome_iff_exists.1 hb
      have := (hmem b v).2 ⟨hv,hcovers⟩
      rw [hentries] at this
      cases this
    | cons first rest =>
      obtain ⟨⟨base,v⟩,hlongest,hin,hmax⟩ := longest_cons first rest
      rw [hlongest]
      rw [← hentries] at hin hmax
      obtain ⟨hbase,hcovers⟩ := (hmem base v).1 hin
      refine .below unmapped hbase hcovers fun b hb hcovered => ?_
      obtain ⟨w,hw⟩ := Option.isSome_iff_exists.1 hb
      have hle := hmax (b,w) ((hmem b w).2 ⟨hw,hcovered⟩)
      subst hq
      exact hcovered.isPrefix_of_length_le hcovers hle

theorem Routes.resolve_eq_iff :
    (Routes.build rs).resolve (normalizePath path) = x ↔ Chosen rs (normalizePath path) x :=
  ⟨fun h => h ▸ Routes.chosen_resolve rs path,(Routes.chosen_resolve rs path).unique⟩

/-- Only what was registered last for each place matters. -/
theorem Chosen.congr {rs' : List (Registration σ)}
    (hlast : ∀ place, last? rs' place = last? rs place) (h : Chosen rs path x) :
    Chosen rs' path x := by
  cases h with
  | mapped h => exact .mapped ((hlast _).trans h)
  | below unmapped h covers longest =>
    refine .below ((hlast _).trans unmapped) ((hlast _).trans h) covers fun b hb => ?_
    rw [hlast] at hb
    exact longest b hb
  | nothing unmapped uncovered =>
    refine .nothing ((hlast _).trans unmapped) fun b hb => ?_
    rw [hlast] at hb
    exact uncovered b hb

theorem Routes.service_congr {rs rs' : List (Registration Service)}
    (hlast : ∀ place, last? rs' place = last? rs place) :
    (Routes.build rs').service = (Routes.build rs).service := by
  funext r
  have hresolve := Routes.resolve_eq_iff.2 ((Routes.chosen_resolve rs r.path).congr hlast)
  rw [Routes.service,Routes.service,hresolve]

end Resolving

/-- A router passes each request, inside its middlewares, to the service that was last mapped to the
normalized path, else to the one last mounted at the longest path above it, and without either it
answers that the path is not found. Hence registrations for different places may change their order
among the others, and a path is served as its normalized form is. -/
theorem router_serves (ms : List Middleware) (rs : List (Registration Service)) :
    (∃ target : Service,
      Router.service ⟨ms,Routes.build rs⟩ = compose ms target ∧
      ∀ r, ∃ chosen, Chosen rs (normalizePath r.path) chosen ∧
        (∀ s, chosen = some s → target r = s r) ∧
        (chosen = none → target r = .done (.ok (.notFound (normalizePath r.path))))) ∧
    (∀ path x y, Chosen rs (normalizePath path) x → Chosen rs (normalizePath path) y → x = y) ∧
    (∀ before part part' after, rs = before ++ part ++ after → part.Perm part' →
      part.Pairwise (fun a b => a.place ≠ b.place) →
      Router.service ⟨ms,Routes.build (before ++ part' ++ after)⟩ =
        Router.service ⟨ms,Routes.build rs⟩) ∧
    ∀ path x, Chosen rs (normalizePath (normalizePath path)) x ↔
      Chosen rs (normalizePath path) x := by
  refine ⟨⟨(Routes.build rs).service,rfl,fun r => ?_⟩,fun path x y => Chosen.unique,
    fun before part part' after hrs hperm hapart => ?_,
    fun path x => by rw [normalizePath_normalizePath]⟩
  · refine ⟨_,Routes.chosen_resolve rs r.path,fun s hs => ?_,fun hnone => ?_⟩
    · rw [Routes.service,hs]
    · rw [Routes.service,hnone]
  · have hlast place : last? (before ++ part' ++ after) place = last? rs place := by
      subst hrs
      simp only [Registration.last?_append,Registration.last?_perm hperm hapart place]
    rw [Router.service,Router.service,Routes.service_congr hlast]

-- "/a" is no path above "/ab", and of the two above "/a/b/c" the longer one is taken
example :
    let t := Routes.build [⟨true,"a/b/",1⟩,⟨false,"/a/b",2⟩,⟨true,"/a",3⟩]
    ["/a/b/c","a/b","//a/x/","/ab"].map (fun p => t.resolve (normalizePath p)) =
      [some 1,some 2,some 3,none] := by
  decide +kernel

end Multiplex.Rpc
