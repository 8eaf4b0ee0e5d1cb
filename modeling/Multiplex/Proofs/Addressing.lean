import Multiplex.Proofs.Routing

/-!
Which texts are service addresses, what they stand for, and that the text of an address stands for
nothing but the address.
-/

namespace Multiplex.Rpc

/-- What is left of a text without the slashes at both ends. -/
structure Stripped (cs core : List Char) : Prop where
  split : ∃ m n, cs = List.replicate m '/' ++ core ++ List.replicate n '/'
  front : core.head? ≠ some '/'
  back : core.getLast? ≠ some '/'

namespace Stripped

variable {cs core : List Char}

theorem dropWhile_replicate (m : Nat) (cs : List Char) :
    (List.replicate m '/' ++ cs).dropWhile (· == '/') = cs.dropWhile (· == '/') := by
  induction m with
  | zero => rfl
  | succ m ih => rw [List.replicate_succ,List.cons_append,List.dropWhile_cons_of_pos (by simp),ih]

theorem trimSlashes_eq (h : Stripped cs core) : trimSlashes cs = core := by
  obtain ⟨⟨m,n,rfl⟩,front,back⟩ := h
  have hback : core.reverse.dropWhile (· == '/') = core.reverse :=
    dropWhile_of_bare (by rwa [List.head?_reverse])
  unfold trimSlashes
  rw [List.append_assoc,dropWhile_replicate]
  cases core with
  | nil =>
    have hall := dropWhile_replicate n []
    rw [List.append_nil] at hall
    rw [List.nil_append,hall]
    rfl
  | cons c core =>
    have hfront : (c :: core ++ List.replicate n '/').dropWhile (· == '/') =
        c :: core ++ List.replicate n '/' := dropWhile_of_bare (by simpa using front)
    rw [hfront,List.reverse_append,List.reverse_replicate,dropWhile_replicate,hback,
      List.reverse_reverse]

theorem exists_replicate (cs : List Char) :
    ∃ m, cs = List.replicate m '/' ++ cs.dropWhile (· == '/') := by
  refine ⟨(cs.takeWhile (· == '/')).length,?_⟩
  have hall : cs.takeWhile (· == '/') = List.replicate (cs.takeWhile (· == '/')).length '/' := by
    refine List.eq_replicate_of_mem fun c hc => ?_
    simpa using List.all_eq_true.mp List.all_takeWhile c hc
  rw [← hall,List.takeWhile_append_dropWhile]

theorem of_trimSlashes (cs : List Char) : Stripped cs (trimSlashes cs) := by
  obtain ⟨hfront,hback⟩ := trimSlashes_bare cs
  refine ⟨?_,hfront,hback⟩
  obtain ⟨m,hm⟩ := exists_replicate cs
  obtain ⟨n,hn⟩ := exists_replicate (cs.dropWhile (· == '/')).reverse
  refine ⟨m,n,?_⟩
  have hrest : cs.dropWhile (· == '/') = trimSlashes cs ++ List.replicate n '/' := by
    have hr := congrArg List.reverse hn
    rwa [List.reverse_reverse,List.reverse_append,List.reverse_replicate] at hr
  rw [List.append_assoc,← hrest,← hm]

end Stripped

namespace Address

/-- The addresses that texts stand for: a path alone, or the scheme, a server without slashes and
what is below it. -/
inductive Reads (s : String) : Address → Prop
  | path {core : List Char} (slash : s.toList.head? = some '/') (h : Stripped s.toList core) :
      Reads s { path := .ofList ('/' :: core) }
  | absolute {server below core : List Char}
      (split : s.toList = "skein://".toList ++ (server ++ below)) (named : server ≠ [])
      (solid : '/' ∉ server) (next : below = [] ∨ below.head? = some '/')
      (h : Stripped below core) :
      Reads s { server := some (.ofList server), path := .ofList ('/' :: core) }

variable {s : String} {a : Address}

theorem takeWhile_server {server below : List Char} (solid : '/' ∉ server)
    (next : below = [] ∨ below.head? = some '/') :
    (server ++ below).takeWhile (· != '/') = server ∧
      (server ++ below).dropWhile (· != '/') = below := by
  have hall : ∀ c ∈ server, (c != '/') = true := by
    intro c hc
    simpa using fun he : c = '/' => solid (he ▸ hc)
  rw [List.takeWhile_append_of_pos hall,List.dropWhile_append_of_pos hall]
  cases below with
  | nil => simp
  | cons c below =>
    obtain rfl : c = '/' := by simpa using next
    simp

theorem Reads.of_parse? (h : parse? s = some a) : Reads s a := by
  unfold parse? at h
  split at h
  · rename_i hslash
    cases h
    exact .path hslash (.of_trimSlashes _)
  · split at h
    · cases h
    · rename_i rest hafter
      dsimp only at h
      split at h
      · cases h
      · rename_i hnamed
        cases h
        have hsplit : s.toList = "skein://".toList ++
            (rest.takeWhile (· != '/') ++ rest.dropWhile (· != '/')) := by
          rw [List.takeWhile_append_dropWhile]
          exact after?_eq_some_iff.mp hafter
        have hstripped := Stripped.of_trimSlashes (rest.dropWhile (· != '/'))
        have hsolid : '/' ∉ rest.takeWhile (· != '/') := by
          intro hmem
          simpa using List.all_eq_true.mp List.all_takeWhile '/' hmem
        have hnext : rest.dropWhile (· != '/') = [] ∨
            (rest.dropWhile (· != '/')).head? = some '/' := by
          refine (Classical.em (rest.dropWhile (· != '/') = [])).imp_right fun hne => ?_
          have hfirst := List.head_dropWhile_not (· != '/') hne
          rw [List.head?_eq_some_head hne]
          simpa using hfirst
        have hreads := Reads.absolute hsplit (by simpa using hnamed) hsolid hnext hstripped
        simpa [withServer,ofPath,normalizePath] using hreads

theorem Reads.parse? (h : Reads s a) : parse? s = some a := by
  cases h with
  | path slash h =>
    unfold Address.parse?
    rw [if_pos slash,ofPath,normalizePath,h.trimSlashes_eq]
  | absolute split named solid next h =>
    obtain ⟨htake,hdrop⟩ := takeWhile_server solid next
    have hafter := after?_eq_some_iff.mpr split
    unfold Address.parse?
    rw [if_neg (by simp [split]),show scheme.toList ++ [':', '/', '/'] = "skein://".toList from rfl,
      hafter]
    simp [htake,hdrop,named,withServer,ofPath,normalizePath,h.trimSlashes_eq]

theorem Reads.text (h : Reads s a) : Reads a.text a := by
  cases h with
  | @path core slash h =>
    exact .path (by simp [Address.text]) ⟨⟨1,0,by simp [Address.text]⟩,h.front,h.back⟩
  | @absolute server below core split named solid next h =>
    have hstripped : Stripped ('/' :: core) core := ⟨⟨1,0,by simp⟩,h.front,h.back⟩
    exact .absolute (by simp [Address.text,scheme]) named solid (.inr rfl) hstripped

theorem isSome_parse?_iff (s : String) : (parse? s).isSome ↔
    s.toList.head? = some '/' ∨ ∃ c rest, s.toList = "skein://".toList ++ c :: rest ∧ c ≠ '/' := by
  constructor
  · intro h
    obtain ⟨a,ha⟩ := Option.isSome_iff_exists.mp h
    cases Reads.of_parse? ha with
    | path slash _ => exact .inl slash
    | absolute split named solid _ _ =>
      obtain ⟨c,server,rfl⟩ := List.exists_cons_of_ne_nil named
      exact .inr ⟨c,_,split,fun hc => solid (hc ▸ List.mem_cons_self)⟩
  · rintro (hslash | ⟨c,rest,hsplit,hc⟩)
    · exact Option.isSome_of_eq_some (Reads.path hslash (.of_trimSlashes _)).parse?
    · have hafter := after?_eq_some_iff.mpr hsplit
      unfold parse?
      rw [if_neg (by simp [hsplit]),
        show scheme.toList ++ [':', '/', '/'] = "skein://".toList from rfl,hafter]
      simp [hc]

/-- A text is an address exactly if it starts with a slash, or with the scheme and a server; it
stands for what the grammar says, and so does the text of what it stands for. -/
theorem addresses_read_back (s : String) :
    ((parse? s).isSome ↔ s.toList.head? = some '/' ∨
      ∃ c rest, s.toList = "skein://".toList ++ c :: rest ∧ c ≠ '/') ∧
    (∀ a, parse? s = some a ↔ Reads s a) ∧
    (∀ a, parse? s = some a → parse? a.text = some a) ∧
    normalizePath (normalizePath s) = normalizePath s :=
  ⟨isSome_parse?_iff s,fun _ => ⟨.of_parse?,Reads.parse?⟩,
    fun _ h => (Reads.of_parse? h).text.parse?,normalizePath_normalizePath s⟩

/-- Slashes at both ends of a path go, those in the middle stay. -/
theorem addresses_read_back_slashes :
    parse? "skein://é:1//a//b/" = some ⟨some "é:1", "/a//b"⟩ ∧
      parse? "skein://é:1/a//b" = some ⟨some "é:1", "/a//b"⟩ :=
  have h : parse? "skein://é:1//a//b/" = some ⟨some "é:1", "/a//b"⟩ := by decide +kernel
  ⟨h,(addresses_read_back _).2.2.1 _ h⟩

end Address

end Multiplex.Rpc
