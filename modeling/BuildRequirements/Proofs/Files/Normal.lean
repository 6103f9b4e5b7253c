import BuildRequirements.Proofs.Files.Destination

namespace BuildRequirements.Path

open FileTree (follow destination placesAlong mem_placesAlong_append follow_append follow_last parts_ne_nil)

def IsPlain (name : String) : Prop := stays name = false ∧ name ≠ ".." ∧ '/' ∉ name.toList

theorem IsPlain.ne_empty {name : String} (h : IsPlain name) : name ≠ "" := by
  rintro rfl
  cases h.1

theorem parts_append_slash (a b : String) : parts (a ++ "/" ++ b) = parts a ++ parts b := by
  have hl : (a ++ "/" ++ b).toList = a.toList ++ '/' :: b.toList := by simp
  rw [parts, hl, List.splitOn_append_cons_self, List.map_append]
  rfl

theorem parts_of_not_mem {a : String} (h : '/' ∉ a.toList) : parts a = [a] := by
  simp [parts, List.splitOn_eq_singleton h]

theorem not_mem_of_mem_splitOn {cs piece : List Char} (h : piece ∈ cs.splitOn '/') :
    '/' ∉ piece := by
  induction cs generalizing piece with
  | nil => simp_all
  | cons c cs ih =>
    rw [List.splitOn_cons_eq_if_modifyHead] at h
    split at h
    · rcases List.mem_cons.mp h with rfl | h
      · simp
      · exact ih h
    · rename_i hc
      obtain ⟨first, rest, hs⟩ := List.exists_cons_of_ne_nil (List.splitOn_ne_nil '/' cs)
      rw [hs] at h ih
      rcases List.mem_cons.mp h with rfl | h
      · have hf := ih (List.mem_cons_self ..)
        simp only [List.mem_cons, not_or]
        exact ⟨fun he => hc (by simp [← he]), hf⟩
      · exact ih (List.mem_cons_of_mem _ h)

theorem slash_not_mem_of_mem_parts {path part : String} (h : part ∈ parts path) :
    '/' ∉ part.toList := by
  obtain ⟨piece, hp, rfl⟩ := List.mem_map.mp h
  simpa using not_mem_of_mem_splitOn hp

theorem parts_intercalate {names : List String} (hne : names ≠ [])
    (h : ∀ n ∈ names, '/' ∉ n.toList) : parts ("/".intercalate names) = names := by
  have hl : ∀ l ∈ names.map String.toList, '/' ∉ l := by
    intro l hl
    obtain ⟨n, hn, rfl⟩ := List.mem_map.mp hl
    exact h n hn
  have hs : "/".toList = ['/'] := rfl
  rw [parts, String.toList_intercalate, hs, List.splitOn_intercalate '/' hl (by simpa using hne)]
  simp [Function.comp_def]

theorem splitOn_append_of_not_mem {cs ds : List Char} (h : '/' ∉ ds) :
    (cs ++ ds).splitOn '/' =
      (cs.splitOn '/').dropLast ++ [(cs.splitOn '/').getLastD [] ++ ds] := by
  induction cs with
  | nil => simp [List.splitOn_eq_singleton h]
  | cons c cs ih =>
    obtain ⟨first, rest, hs⟩ := List.exists_cons_of_ne_nil (List.splitOn_ne_nil '/' cs)
    rw [List.cons_append, List.splitOn_cons_eq_if_modifyHead, List.splitOn_cons_eq_if_modifyHead,
      ih, hs]
    split
    · simp
    · cases rest <;> simp

theorem parts_append_of_not_mem (a : String) {b : String} (h : '/' ∉ b.toList) :
    parts (a ++ b) = (parts a).dropLast ++ [(parts a).getLastD "" ++ b] := by
  obtain ⟨first, rest, hs⟩ := List.exists_cons_of_ne_nil (List.splitOn_ne_nil '/' a.toList)
  simp only [parts, String.toList_append, splitOn_append_of_not_mem h, List.map_append,
    List.map_dropLast, List.map_cons, List.map_nil, String.ofList_append, String.ofList_toList, hs]
  simp [List.getLastD_eq_getLast?, List.getLast?_cons]

theorem follow_of_stays {here : Location} {ps : List String} (h : ∀ p ∈ ps, stays p = true) :
    follow here ps = here := by
  induction ps with
  | nil => rfl
  | cons p ps ih =>
    rw [follow, if_pos (h p (List.mem_cons_self ..))]
    exact ih fun q hq => h q (List.mem_cons_of_mem _ hq)

theorem mem_follow {here : Location} {ps : List String} {n : String} (h : n ∈ follow here ps) :
    n ∈ here ∨ n ∈ ps ∧ stays n = false ∧ n ≠ ".." := by
  fun_induction follow here ps with
  | case1 => exact Or.inl h
  | case2 here p ps hs ih =>
    exact (ih h).imp_right fun hn => ⟨List.mem_cons_of_mem _ hn.1, hn.2⟩
  | case3 here ps hs ih =>
    exact (ih h).imp List.mem_of_mem_tail fun hn => ⟨List.mem_cons_of_mem _ hn.1, hn.2⟩
  | case4 here p ps hs hp ih =>
    rcases ih h with hn | hn
    · rcases List.mem_cons.mp hn with rfl | hn
      · exact Or.inr ⟨List.mem_cons_self .., by simpa using hs, hp⟩
      · exact Or.inl hn
    · exact Or.inr ⟨List.mem_cons_of_mem _ hn.1, hn.2⟩

theorem follow_reverse {here : Location} {names : List String}
    (h : ∀ n ∈ names, stays n = false ∧ n ≠ "..") : follow here names.reverse = names ++ here := by
  induction names with
  | nil => rfl
  | cons n ns ih =>
    have hn := h n (List.mem_cons_self ..)
    rw [List.reverse_cons, follow_append, ih fun m hm => h m (List.mem_cons_of_mem _ hm),
      follow_last, hn.1, if_neg (by simp), if_neg hn.2]
    rfl

theorem follow_replicate (here : Location) (k : Nat) :
    follow here (List.replicate k "..") = here.drop k := by
  induction k generalizing here with
  | zero => rfl
  | succ k ih =>
    have hs : stays ".." = false := by decide
    rw [List.replicate_succ, follow, hs, if_neg (by simp), if_pos rfl, ih, List.drop_tail]

theorem placesAlong_reverse {here q : Location} {names : List String}
    (h : ∀ n ∈ names, stays n = false ∧ n ≠ "..") (hq : q ∈ placesAlong here names.reverse) :
    q <:+ names ++ here := by
  induction names with
  | nil =>
    rw [List.mem_singleton.mp hq]
    exact List.suffix_refl here
  | cons n ns ih =>
    have hn := h n (List.mem_cons_self ..)
    have hns := fun m hm => h m (List.mem_cons_of_mem _ hm)
    rw [List.reverse_cons, mem_placesAlong_append, follow_reverse hns] at hq
    rcases hq with hq | hq
    · exact (ih hns hq).trans (List.suffix_cons n (ns ++ here))
    · simp only [placesAlong, hn.1, hn.2, Bool.false_eq_true, if_false, List.mem_cons,
        List.not_mem_nil, or_false] at hq
      rcases hq with rfl | rfl
      · exact List.suffix_cons n (ns ++ here)
      · exact List.suffix_refl _

theorem placesAlong_replicate {here q : Location} {k : Nat}
    (hq : q ∈ placesAlong here (List.replicate k "..")) : q <:+ here := by
  induction k generalizing here with
  | zero =>
    obtain rfl := List.mem_singleton.mp hq
    exact List.suffix_refl q
  | succ k ih =>
    have hs : stays ".." = false := by decide
    rw [List.replicate_succ, placesAlong, hs, if_neg (by simp), if_pos rfl] at hq
    rcases List.mem_cons.mp hq with rfl | hq
    · exact List.suffix_refl q
    · exact (ih hq).trans (List.tail_suffix here)

theorem placesAlong_of_stays {here : Location} {ps : List String}
    (h : ∀ p ∈ ps, stays p = true) : placesAlong here ps = [here] := by
  induction ps with
  | nil => rfl
  | cons p ps ih =>
    rw [placesAlong, if_pos (h p (List.mem_cons_self ..))]
    exact ih fun q hq => h q (List.mem_cons_of_mem _ hq)

/-- What settles is names on top of the steps that go above where the path starts, and it leads from
anywhere to where the path leads. -/
theorem settle_eq (absolute : Bool) (names : List String) (k : Nat) (ps : List String)
    (h : ∀ n ∈ names, stays n = false ∧ n ≠ "..") :
    ∃ names' k', settle absolute (names ++ List.replicate k "..") ps =
        names' ++ List.replicate k' ".." ∧
      (∀ n ∈ names', stays n = false ∧ n ≠ "..") ∧ (absolute = true → k = 0 → k' = 0) ∧
      ∀ here : Location, (absolute = true → here = []) →
        follow (names ++ here.drop k) ps = names' ++ here.drop k' := by
  induction ps generalizing names k with
  | nil => exact ⟨names, k, rfl, h, fun _ hk => hk, fun _ _ => rfl⟩
  | cons p ps ih =>
    by_cases hs : stays p = true
    · simpa only [settle, follow, if_pos hs] using ih names k h
    · by_cases hp : p = ".."
      · simp only [settle, follow, if_neg hs, if_pos hp]
        cases names with
        | nil =>
          cases k with
          | zero =>
            cases absolute with
            | true =>
              obtain ⟨names', k', hsettle, hnames, hk, hfollow⟩ := ih [] 0 h
              refine ⟨names', k', hsettle, hnames, hk, fun here hhere => ?_⟩
              have hf := hfollow here hhere
              rw [hhere rfl] at hf ⊢
              exact hf
            | false =>
              obtain ⟨names', k', hsettle, hnames, _, hfollow⟩ := ih [] 1 h
              exact ⟨names', k', hsettle, hnames, fun hc => absurd hc (by simp), by simpa using hfollow⟩
          | succ k =>
            obtain ⟨names', k', hsettle, hnames, _, hfollow⟩ := ih [] (k + 2) h
            refine ⟨names', k', ?_, hnames, fun _ hk => absurd hk (by simp), by simpa using hfollow⟩
            simpa [List.replicate_succ] using hsettle
        | cons n ns =>
          have hn := h n (List.mem_cons_self ..)
          simpa [hn.2] using ih ns k fun m hm => h m (List.mem_cons_of_mem _ hm)
      · simp only [settle, follow, if_neg hs, if_neg hp]
        apply ih (p :: names) k
        intro n hn
        rcases List.mem_cons.mp hn with rfl | hn
        · exact ⟨by simpa using hs, hp⟩
        · exact h n hn

theorem exists_settle_eq (absolute : Bool) (ps : List String) :
    ∃ names k, settle absolute [] ps = names ++ List.replicate k ".." ∧
      (∀ n ∈ names, stays n = false ∧ n ≠ "..") ∧ (absolute = true → k = 0) ∧
      ∀ here : Location, (absolute = true → here = []) → follow here ps = names ++ here.drop k := by
  obtain ⟨names, k, hsettle, hnames, hk, hfollow⟩ := settle_eq absolute [] 0 ps (by simp)
  exact ⟨names, k, hsettle, hnames, fun ha => hk ha rfl, hfollow⟩

theorem follow_settle (absolute : Bool) {here : Location} (ps : List String)
    (hhere : absolute = true → here = []) :
    follow here (settle absolute [] ps).reverse = follow here ps := by
  obtain ⟨names, k, hsettle, hnames, _, hfollow⟩ := exists_settle_eq absolute ps
  rw [hsettle, List.reverse_append, follow_append, List.reverse_replicate, follow_replicate,
    follow_reverse hnames, hfollow here hhere]

theorem placesAlong_settle {absolute : Bool} {here q : Location} {ps : List String}
    (hhere : absolute = true → here = []) (h : q ∈ placesAlong here (settle absolute [] ps).reverse) :
    q <:+ here ∨ q <:+ follow here ps := by
  obtain ⟨names, k, hsettle, hnames, _, hfollow⟩ := exists_settle_eq absolute ps
  rw [hsettle, List.reverse_append, mem_placesAlong_append, List.reverse_replicate,
    follow_replicate] at h
  rcases h with h | h
  · exact Or.inl (placesAlong_replicate h)
  · rw [hfollow here hhere]
    exact Or.inr (placesAlong_reverse hnames h)

theorem settle_append (absolute : Bool) (kept xs ys : List String) :
    settle absolute kept (xs ++ ys) = settle absolute (settle absolute kept xs) ys := by
  fun_induction settle absolute kept xs with
  | case1 => rfl
  | case2 kept p ps hs ih => simpa [settle, hs] using ih
  | case3 ps hs ih => simpa [settle, hs] using ih
  | case4 ps k ks hs ih => simpa [settle, hs] using ih
  | case5 kept p ps hs hp ih => simpa [settle, hs, hp] using ih

theorem settle_replicate (k j : Nat) :
    settle false (List.replicate j "..") (List.replicate k "..") = List.replicate (k + j) ".." := by
  induction k generalizing j with
  | zero => simp [settle]
  | succ k ih =>
    have hj := ih (j + 1)
    have hsum : k + (j + 1) = k + 1 + j := by omega
    have hs : stays ".." = false := by decide
    rw [hsum] at hj
    cases j with
    | zero => simpa [settle, hs, List.replicate_succ] using hj
    | succ j => simpa [settle, hs, List.replicate_succ] using hj

theorem settle_reverse {absolute : Bool} {kept names : List String}
    (h : ∀ n ∈ names, stays n = false ∧ n ≠ "..") :
    settle absolute kept names.reverse = names ++ kept := by
  induction names with
  | nil => rfl
  | cons n ns ih =>
    have hn := h n (List.mem_cons_self ..)
    rw [List.reverse_cons, settle_append, ih fun m hm => h m (List.mem_cons_of_mem _ hm)]
    simp [settle, hn.1, hn.2]

theorem settle_settle (absolute : Bool) (ps : List String) :
    settle absolute [] (settle absolute [] ps).reverse = settle absolute [] ps := by
  obtain ⟨names, k, hsettle, hnames, hk, _⟩ := exists_settle_eq absolute ps
  have hup : settle absolute [] (List.replicate k "..") = List.replicate k ".." := by
    cases absolute with
    | true => simp [hk rfl, settle]
    | false => exact settle_replicate k 0
  rw [hsettle, List.reverse_append, settle_append, List.reverse_replicate, hup, settle_reverse hnames]

theorem stays_of_mem_settle {absolute : Bool} {ps : List String} {n : String}
    (h : n ∈ settle absolute [] ps) : stays n = false := by
  obtain ⟨names, k, hsettle, hnames, _, _⟩ := exists_settle_eq absolute ps
  rw [hsettle] at h
  rcases List.mem_append.mp h with h | h
  · exact (hnames n h).1
  · rw [List.eq_of_mem_replicate h]
    decide

theorem slash_not_mem_of_mem_settle {absolute : Bool} {path n : String}
    (h : n ∈ settle absolute [] (parts path)) : '/' ∉ n.toList := by
  obtain ⟨names, k, hsettle, _, _, hfollow⟩ := exists_settle_eq absolute (parts path)
  have hnames : follow [] (parts path) = names := by simpa using hfollow [] fun _ => rfl
  rw [hsettle] at h
  rcases List.mem_append.mp h with h | h
  · rw [← hnames] at h
    rcases mem_follow h with h | h
    · cases h
    · exact slash_not_mem_of_mem_parts h.1
  · rw [List.eq_of_mem_replicate h]
    decide

theorem parts_slash_append (a : String) : parts ("/" ++ a) = "" :: parts a := by
  have h := parts_append_slash "" a
  rw [String.empty_append] at h
  rw [h, parts_of_not_mem (by simp)]
  rfl

theorem parts_append_slash_end (a : String) : parts (a ++ "/") = parts a ++ [""] := by
  have h := parts_append_slash a ""
  have he : parts "" = [""] := parts_of_not_mem (by simp)
  rw [String.append_empty, he] at h
  exact h

theorem parts_normal {path : String} (h : settle (isAbsolute path) [] (parts path) ≠ []) :
    parts (normal path) = (if isAbsolute path then [""] else []) ++
      (settle (isAbsolute path) [] (parts path)).reverse ++
      (if endsInSlash path then [""] else []) := by
  have hk := parts_intercalate (List.reverse_ne_nil_iff.mpr h) fun n hn =>
    slash_not_mem_of_mem_settle (List.mem_reverse.mp hn)
  rw [normal]
  generalize isAbsolute path = absolute at h hk ⊢
  generalize endsInSlash path = slash
  split
  · rename_i he
    exact absurd he h
  · cases absolute <;> cases slash <;> simp [parts_slash_append, parts_append_slash_end, hk]

theorem stays_of_mem_parts_normal {path part : String}
    (h : settle (isAbsolute path) [] (parts path) = []) (hp : part ∈ parts (normal path)) :
    stays part = true := by
  have hall : ∀ q ∈ parts (normal path), stays q = true := by
    rw [normal]
    simp only [h]
    cases isAbsolute path <;> cases endsInSlash path <;> decide
  exact hall part hp

theorem stays_of_mem_slash {slash : Bool} : ∀ p ∈ (if slash then [""] else []), stays p = true := by
  cases slash <;> decide

theorem destination_normal (path : String) : destination (normal path) = destination path := by
  have hf := follow_settle (isAbsolute path) (parts path) fun _ => rfl
  by_cases h : settle (isAbsolute path) [] (parts path) = []
  · rw [h] at hf
    rw [destination, destination, ← hf]
    exact follow_of_stays fun p hp => stays_of_mem_parts_normal h hp
  · rw [destination, destination, parts_normal h, follow_append, follow_append,
      follow_of_stays stays_of_mem_slash, follow_of_stays stays_of_mem_slash, hf]

theorem join_eq {first second : String} (hf : first ≠ "") (hs : second ≠ "") :
    join first second = normal (first ++ "/" ++ second) := by
  simp [join, hf, hs]

theorem destination_join {first second : String} (hf : first ≠ "") (hs : second ≠ "") :
    destination (join first second) = follow (destination first) (parts second) := by
  rw [join_eq hf hs, destination_normal, destination, parts_append_slash, follow_append]
  rfl

def settledParts (path : String) : List String :=
  (if isAbsolute path then [""] else []) ++ (settle (isAbsolute path) [] (parts path)).reverse

section SettledParts

variable {path root name : String} {here q : Location}

theorem follow_settledParts (hhere : isAbsolute path = true → here = []) :
    follow here (settledParts path) = follow here (parts path) := by
  rw [settledParts, follow_append, follow_of_stays stays_of_mem_slash, follow_settle _ _ hhere]

theorem placesAlong_settledParts (hhere : isAbsolute path = true → here = [])
    (hq : q ∈ placesAlong here (settledParts path)) : q <:+ here ∨ q <:+ follow here (parts path) := by
  rw [settledParts, mem_placesAlong_append, placesAlong_of_stays stays_of_mem_slash,
    follow_of_stays stays_of_mem_slash] at hq
  rcases hq with hq | hq
  · rw [List.mem_singleton.mp hq]
    exact Or.inl (List.suffix_refl here)
  · exact placesAlong_settle hhere hq

theorem isAbsolute_append (hr : root ≠ "") (other : String) :
    isAbsolute (root ++ other) = isAbsolute root := by
  obtain ⟨c, cs, hc⟩ := List.exists_cons_of_ne_nil (mt String.toList_eq_nil_iff.mp hr)
  rw [isAbsolute, isAbsolute, String.toList_append, hc]
  rfl

theorem parts_join (hr : root ≠ "") (hn : IsPlain name) :
    parts (join root name) = settledParts root ++ [name] := by
  have hname := parts_of_not_mem hn.2.2
  have habsolute : isAbsolute (root ++ "/" ++ name) = isAbsolute root := by
    rw [String.append_assoc, isAbsolute_append hr]
  have hset : settle (isAbsolute root) [] (parts (root ++ "/" ++ name)) =
      name :: settle (isAbsolute root) [] (parts root) := by
    rw [parts_append_slash, settle_append, hname]
    simp [settle, hn.1, hn.2.1]
  have hend : endsInSlash (root ++ "/" ++ name) = false := by
    obtain ⟨c, hc⟩ := Option.ne_none_iff_exists'.mp
      (mt List.getLast?_eq_none_iff.mp (mt String.toList_eq_nil_iff.mp hn.ne_empty))
    have hm := List.mem_of_getLast? hc
    have hl : (root ++ "/" ++ name).toList = root.toList ++ ['/'] ++ name.toList := by simp
    rw [endsInSlash, hl, List.getLast?_append, hc]
    simp only [Option.some_or, beq_eq_false_iff_ne, ne_eq, Option.some.injEq]
    rintro rfl
    exact hn.2.2 hm
  rw [join_eq hr hn.ne_empty, parts_normal (by rw [habsolute, hset]; simp), habsolute, hset, hend,
    settledParts]
  simp

theorem destination_settledParts (path : String) : follow [] (settledParts path) = destination path :=
  follow_settledParts fun _ => rfl

theorem suffix_of_mem_settledParts (hq : q ∈ placesAlong [] (settledParts path)) :
    q <:+ destination path := by
  rcases placesAlong_settledParts (fun _ => rfl) hq with hq | hq
  · rw [List.suffix_nil.mp hq]
    exact List.nil_suffix
  · exact hq

theorem parts_join_name (hr : root ≠ "") (hn : IsPlain name) :
    ∃ front, parts (join root name) = front ++ [name] ∧ follow [] front = destination root ∧
      ∀ q ∈ placesAlong [] front, q <:+ destination root :=
  ⟨settledParts root, parts_join hr hn, destination_settledParts root,
    fun _ => suffix_of_mem_settledParts⟩

theorem isAbsolute_of_parts {part : String} {rest : List String} (h : parts path = part :: rest) :
    isAbsolute path = (part == "" && !rest.isEmpty) := by
  rw [isAbsolute]
  rw [parts] at h
  cases hp : path.toList with
  | nil =>
    rw [hp] at h
    simp at h
    simp [← h.1, ← h.2]
  | cons c cs =>
    obtain ⟨first, others, hs⟩ := List.exists_cons_of_ne_nil (List.splitOn_ne_nil '/' cs)
    rw [hp, List.splitOn_cons_eq_if_modifyHead, hs] at h
    by_cases hc : c = '/'
    · rw [if_pos (by simpa using hc)] at h
      obtain ⟨rfl, rfl⟩ := List.cons.inj h
      simp [hc]
    · rw [if_neg (by simpa using hc)] at h
      obtain ⟨rfl, rfl⟩ := List.cons.inj h
      have hhead : ((c :: cs).head? == some '/') = false := by simpa using hc
      have hpart : (String.ofList (c :: first) == "") = false :=
        beq_false_of_ne (mt String.ofList_eq_empty_iff.mp (List.cons_ne_nil c first))
      rw [hhead, hpart, Bool.false_and]

theorem parts_injective {a b : String} (h : parts a = parts b) : a = b := by
  have hlists : a.toList.splitOn '/' = b.toList.splitOn '/' :=
    (List.map_inj_right fun _ _ he => String.ofList_injective he).mp h
  apply String.toList_injective
  calc a.toList = ['/'].intercalate (a.toList.splitOn '/') := (List.intercalate_splitOn '/').symm
    _ = ['/'].intercalate (b.toList.splitOn '/') := by rw [hlists]
    _ = b.toList := List.intercalate_splitOn '/'

theorem join_eq_append (hp : parts path = settledParts path) (hne : path ≠ "") (hn : IsPlain name) :
    join path name = path ++ "/" ++ name := by
  apply parts_injective
  rw [parts_join hne hn, parts_append_slash, parts_of_not_mem hn.2.2, hp]

theorem settle_settledParts (root : String) :
    settle (isAbsolute root) [] (settledParts root) = settle (isAbsolute root) [] (parts root) := by
  have hs : settle (isAbsolute root) [] (if isAbsolute root then [""] else []) = [] := by
    cases isAbsolute root <;> decide
  rw [settledParts, settle_append, hs, settle_settle]

theorem isAbsolute_of_settled (hn : IsPlain name) (h : parts path = settledParts root ++ [name]) :
    isAbsolute path = isAbsolute root := by
  rw [settledParts] at h
  cases ha : isAbsolute root with
  | true =>
    rw [ha, if_pos rfl] at h
    simp [isAbsolute_of_parts h]
  | false =>
    obtain ⟨part, rest, hpart⟩ := List.exists_cons_of_ne_nil (parts_ne_nil path)
    have hmem : part ∈ (settle false [] (parts root)).reverse ++ [name] := by
      rw [ha, hpart] at h
      simp only [Bool.false_eq_true, if_false, List.nil_append] at h
      rw [← h]
      exact List.mem_cons_self ..
    have hstays : stays part = false := by
      rcases List.mem_append.mp hmem with hm | hm
      · exact stays_of_mem_settle (List.mem_reverse.mp hm)
      · rw [List.mem_singleton.mp hm]
        exact hn.1
    have hne : (part == "") = false := by
      rw [stays, Bool.or_eq_false_iff] at hstays
      exact hstays.1
    rw [isAbsolute_of_parts hpart, hne, Bool.false_and]

theorem settledParts_of_parts (hn : IsPlain name) (h : parts path = settledParts root ++ [name]) :
    settledParts path = parts path := by
  have hsettle : settle (isAbsolute root) [] (parts path) =
      name :: settle (isAbsolute root) [] (parts root) := by
    rw [h, settle_append, settle_settledParts]
    simp [settle, hn.1, hn.2.1]
  rw [settledParts, isAbsolute_of_settled hn h, hsettle, h, settledParts, List.reverse_cons,
    List.append_assoc]

end SettledParts

end BuildRequirements.Path
