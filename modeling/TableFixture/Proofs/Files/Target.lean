import TableFixture.Files.Store

/-!
# Where paths lead

Whether a path leads anywhere depends on what exists, but where it can lead does not: its
parts alone name one location.  The parts of a joined path are those of the base and then
those of the name, and a name whose parts never go further up than they came down leads
below the base.  Names that differ in an ending without slashes lie in one directory.

Main results:

- Theorem `parts_join`: the parts of a joined path.
- Theorem `target_prefix_join`: a name that stays inside leads below the base.
- Theorem `exists_parts_append`, `exists_parts_join_append`: the parts of names that differ
  in their endings.
-/

namespace TableFixture.Path

/-! ## Parts of paths -/

theorem partsFrom_append_slash (part cs ds : List Char) :
    partsFrom part (cs ++ '/' :: ds) = partsFrom part cs ++ partsFrom [] ds := by
  induction cs generalizing part with
  | nil => rfl
  | cons c cs ih =>
      rw [List.cons_append, partsFrom, partsFrom]
      split
      · rw [ih, List.cons_append]
      · exact ih (c :: part)

theorem partsFrom_of_no_slash {cs : List Char} (h : '/' ∉ cs) (part : List Char) :
    partsFrom part cs = [part.reverse ++ cs] := by
  induction cs generalizing part with
  | nil => simp [partsFrom]
  | cons c cs ih =>
      have hc : c ≠ '/' := fun hc => h (hc ▸ List.mem_cons_self)
      rw [partsFrom, if_neg hc, ih (fun hcs => h (List.mem_cons_of_mem c hcs))]
      simp

/-- The parts of a text between slashes have none. -/
theorem no_slash_of_mem_partsFrom {part cs : List Char} (h : '/' ∉ part) :
    ∀ piece ∈ partsFrom part cs, '/' ∉ piece := by
  induction cs generalizing part with
  | nil => simpa [partsFrom] using h
  | cons c cs ih =>
      rw [partsFrom]
      split
      · intro piece hpiece
        rcases List.mem_cons.1 hpiece with rfl | hpiece
        · simpa using h
        · exact ih List.not_mem_nil piece hpiece
      next hc => exact ih (by simp [h, Ne.symm hc])

theorem no_slash_of_mem_parts {path part : String} (h : part ∈ parts path) :
    '/' ∉ part.toList := by
  simp only [parts, List.mem_map, List.mem_filter] at h
  rcases h with ⟨piece, ⟨hpiece, -⟩, rfl⟩
  simpa using no_slash_of_mem_partsFrom List.not_mem_nil piece hpiece

/-- What is appended without a slash ends the last part. -/
theorem exists_partsFrom_append (part cs : List Char) :
    ∃ before last, ∀ ending, '/' ∉ ending →
      partsFrom part (cs ++ ending) = before ++ [last ++ ending] := by
  induction cs generalizing part with
  | nil =>
      refine ⟨[], part.reverse, fun ending hending => ?_⟩
      exact partsFrom_of_no_slash hending part
  | cons c cs ih =>
      by_cases hc : c = '/'
      · rcases ih [] with ⟨before, last, hparts⟩
        refine ⟨part.reverse :: before, last, fun ending hending => ?_⟩
        rw [List.cons_append, partsFrom, if_pos hc, hparts ending hending, List.cons_append]
      · rcases ih (c :: part) with ⟨before, last, hparts⟩
        refine ⟨before, last, fun ending hending => ?_⟩
        rw [List.cons_append, partsFrom, if_neg hc, hparts ending hending]

/-- The parts of two texts with a slash between them. -/
theorem parts_of_toList {path base name : String}
    (h : path.toList = base.toList ++ '/' :: name.toList) :
    parts path = parts base ++ parts name := by
  simp [parts, h, partsFrom_append_slash]

/-- A slash at the end makes no part. -/
theorem parts_of_toList_slash {base stem : String} (h : base.toList = stem.toList ++ ['/']) :
    parts base = parts stem := by
  have hempty : parts "" = [] := by decide
  have hstem : base.toList = stem.toList ++ '/' :: "".toList := by simpa using h
  rw [parts_of_toList hstem, hempty, List.append_nil]

/-- The parts of a joined path are those of the base and then those of the name. -/
theorem parts_join {name : String} (h : isAbsolute name = false) (base : String) :
    parts (join base name) = parts base ++ parts name := by
  by_cases hempty : base = ""
  · subst hempty
    have hparts : parts "" = [] := by decide
    simp [join, h, hparts]
  · by_cases hslash : endsInSlash base = true
    · have hjoin : join base name = base ++ name := by simp [join, h, hslash]
      rcases List.eq_nil_or_concat base.toList with hnil | ⟨stem, last, hbase⟩
      · exact absurd (String.toList_eq_nil_iff.1 hnil) hempty
      · have hlast : last = '/' := by simpa [endsInSlash, hbase] using hslash
        subst hlast
        have hstem : base.toList = (String.ofList stem).toList ++ ['/'] := by simp [hbase]
        rw [hjoin, parts_of_toList_slash hstem]
        exact parts_of_toList (by simp [hbase])
    · refine parts_of_toList ?_
      exact toList_join_of_relative h (by simpa using hempty) (by simpa using hslash)

/-- A text that does not start with a slash has a first part, which starts as it does. -/
theorem exists_parts_eq_cons {path : String} {c : Char} {cs : List Char}
    (h : path.toList = c :: cs) (hc : c ≠ '/') :
    ∃ first rest, parts path = first :: rest ∧ first.toList.head? = some c := by
  have hfrom (part cs : List Char) :
      ∃ more rest, partsFrom part cs = (part.reverse ++ more) :: rest := by
    induction cs generalizing part with
    | nil => exact ⟨[], [], by simp [partsFrom]⟩
    | cons c cs ih =>
        rw [partsFrom]
        split
        · exact ⟨[], _, by rw [List.append_nil]⟩
        · rcases ih (c :: part) with ⟨more, rest, hparts⟩
          exact ⟨c :: more, rest, by simp [hparts]⟩
  rcases hfrom [c] cs with ⟨more, rest, hparts⟩
  refine ⟨String.ofList (c :: more), (rest.filter (· ≠ [])).map String.ofList, ?_, by simp⟩
  simp [parts, h, partsFrom, hc, hparts]

/-- Only the empty text is neither absolute nor has parts. -/
theorem eq_empty_of_parts_eq_nil {name : String} (h : isAbsolute name = false)
    (hparts : parts name = []) : name = "" := by
  cases hname : name.toList with
  | nil => exact String.toList_eq_nil_iff.1 hname
  | cons c cs =>
      have hc : c ≠ '/' := by simpa [isAbsolute, hname] using h
      rcases exists_parts_eq_cons hname hc with ⟨first, rest, hcons, -⟩
      rw [hcons] at hparts
      cases hparts

/-- A base with nothing appended is no file name: it is empty or ends in a slash. -/
theorem join_empty (base : String) : join base "" = "" ∨ endsInSlash (join base "") = true := by
  have habsolute : isAbsolute "" = false := by decide
  by_cases hempty : base = ""
  · left
    simp [join, habsolute, hempty]
  · right
    by_cases hslash : endsInSlash base = true
    · simp [join, habsolute, hslash]
    · rw [endsInSlash,
        toList_join_of_relative habsolute (by simpa using hempty) (by simpa using hslash)]
      simp

/-! ## Names with endings -/

/-- An ending for a name: six letters or digits. -/
def IsEnding (ending : String) : Prop :=
  ending.toList.length = 6 ∧ ∀ c ∈ ending.toList, c.isAlphanum = true

/-- Names below a base that start alike and differ in their endings. -/
def Ends (base leading path : String) : Prop :=
  ∃ ending, IsEnding ending ∧ path = join base (leading ++ ending)

theorem IsEnding.no_slash {ending : String} (h : IsEnding ending) : '/' ∉ ending.toList :=
  fun hslash => absurd (h.2 '/' hslash) (by decide)

theorem IsEnding.isAbsolute_append {ending : String} (h : IsEnding ending) (leading : String) :
    isAbsolute (leading ++ ending) = isAbsolute leading := by
  cases hleading : leading.toList with
  | cons c cs => simp [isAbsolute, hleading]
  | nil =>
      cases hending : ending.toList with
      | nil => simp [isAbsolute, hleading, hending]
      | cons c cs =>
          have hc : c ≠ '/' := fun hc => h.no_slash (by simp [hending, hc])
          simp [isAbsolute, hleading, hending, hc]

/-- The parts of a name that ends in an ending. -/
theorem exists_parts_append (leading : String) :
    ∃ way last, ∀ ending, IsEnding ending →
      parts (leading ++ ending) = way ++ [last ++ ending] := by
  rcases exists_partsFrom_append [] leading.toList with ⟨before, last, hparts⟩
  refine ⟨(before.filter (· ≠ [])).map String.ofList, String.ofList last, fun ending h => ?_⟩
  have hne : ending.toList ≠ [] := fun hnil => by simpa [hnil] using h.1
  simp [parts, hparts _ h.no_slash, hne]

/-- The parts of a path that ends in an ending: only the last one depends on the ending. -/
theorem exists_parts_join_append (base leading : String) :
    ∃ way last, ∀ ending, IsEnding ending →
      parts (join base (leading ++ ending)) = way ++ [last ++ ending] := by
  rcases exists_parts_append leading with ⟨way, last, hparts⟩
  by_cases habsolute : isAbsolute leading = true
  · refine ⟨way, last, fun ending h => ?_⟩
    rw [join_of_isAbsolute (by rw [h.isAbsolute_append, habsolute]), hparts ending h]
  · refine ⟨parts base ++ way, last, fun ending h => ?_⟩
    rw [parts_join (by rw [h.isAbsolute_append, Bool.eq_false_iff.2 habsolute]), hparts ending h,
      List.append_assoc]

/-! ## The location that a path names -/

/-- Where a part of a path leads from a location, if it leads anywhere. -/
def next (here : Location) (part : String) : Location :=
  if part = "." then here else if part = ".." then here.dropLast else here ++ [part]

/-- The location that a path names. -/
def target (path : String) : Location := (parts path).foldl next []

theorem next_of_ne {part : String} (h : part ≠ ".") (h' : part ≠ "..") (here : Location) :
    next here part = here ++ [part] := by
  rw [next, if_neg h, if_neg h']

/-- The location of a joined path is reached from that of the base. -/
theorem target_join {name : String} (h : isAbsolute name = false) (base : String) :
    target (join base name) = (parts name).foldl next (target base) := by
  rw [target, parts_join h, List.foldl_append]
  rfl

/-- The names on the way to where a path leads are parts of the path. -/
theorem mem_parts_of_mem_target {path name : String} (h : name ∈ target path) :
    name ∈ parts path := by
  have hfoldl (ps : List String) (here : Location) (hname : name ∈ ps.foldl next here) :
      name ∈ here ∨ name ∈ ps := by
    induction ps generalizing here with
    | nil => exact .inl hname
    | cons part rest ih =>
        rcases ih _ hname with hnext | hrest
        · unfold next at hnext
          split at hnext
          · exact .inl hnext
          · split at hnext
            · exact .inl ((List.dropLast_sublist here).subset hnext)
            · rcases List.mem_append.1 hnext with hhere | hpart
              · exact .inl hhere
              · exact .inr (List.mem_singleton.1 hpart ▸ List.mem_cons_self)
        · exact .inr (List.mem_cons_of_mem part hrest)
  exact (hfoldl (parts path) [] h).resolve_left List.not_mem_nil

/-- Parts never go further up than they came down, if they start at the given depth. -/
inductive StaysInside : Nat → List String → Prop where
  | nil (depth : Nat) : StaysInside depth []
  | stay {depth : Nat} {rest : List String} :
      StaysInside depth rest → StaysInside depth ("." :: rest)
  | up {depth : Nat} {rest : List String} :
      StaysInside depth rest → StaysInside (depth + 1) (".." :: rest)
  | down {depth : Nat} {part : String} {rest : List String} : part ≠ "." → part ≠ ".." →
      StaysInside (depth + 1) rest → StaysInside depth (part :: rest)

/-- A name is one inside the directory it is joined to. -/
def IsInside (name : String) : Prop := isAbsolute name = false ∧ StaysInside 0 (parts name)

/-- Parts that never go further up than they came down lead below where they start. -/
theorem prefix_foldl_next {base here : Location} {depth : Nat} {ps : List String}
    (h : StaysInside depth ps) (hbase : base <+: here) (hdepth : base.length + depth ≤ here.length) :
    base <+: ps.foldl next here := by
  induction h generalizing here with
  | nil => exact hbase
  | stay _ ih => exact ih hbase hdepth
  | @up depth rest _ ih =>
      have hdropLast : here.dropLast <+: here := List.dropLast_prefix here
      have hlength : base.length + depth ≤ here.dropLast.length := by
        rw [List.length_dropLast]
        omega
      have hbelow : base <+: here.dropLast :=
        List.prefix_of_prefix_length_le hbase hdropLast (by omega)
      exact ih hbelow hlength
  | @down depth part rest hdot hup _ ih =>
      rw [List.foldl_cons, next_of_ne hdot hup]
      refine ih (hbase.trans (List.prefix_append here [part])) ?_
      rw [List.length_append, List.length_singleton]
      omega

theorem StaysInside.of_append {ps qs : List String} {depth : Nat}
    (h : StaysInside depth (ps ++ qs)) : StaysInside depth ps := by
  induction ps generalizing depth with
  | nil => exact .nil depth
  | cons part rest ih =>
      cases h with
      | stay h => exact .stay (ih h)
      | up h => exact .up (ih h)
      | down hdot hup h => exact .down hdot hup (ih h)

/-- A name inside leads to the base or below it. -/
theorem target_prefix_join {name : String} (h : IsInside name) (base : String) :
    target base <+: target (join base name) := by
  rw [target_join h.1]
  exact prefix_foldl_next h.2 (List.prefix_refl _) (by simp)

/-! ### Names with endings lie side by side -/

theorem target_of_parts {path : String} {way : List String} {name : String}
    (h : parts path = way ++ [name]) (hdot : name ≠ ".") (hup : name ≠ "..") :
    target path = way.foldl next [] ++ [name] := by
  rw [target, h, List.foldl_append, List.foldl_cons, List.foldl_nil, next_of_ne hdot hup]

theorem IsEnding.append_ne {ending : String} (h : IsEnding ending) (last : String) :
    last ++ ending ≠ "." ∧ last ++ ending ≠ ".." := by
  have hlength : (last ++ ending).toList.length = last.toList.length + 6 := by
    rw [String.toList_append, List.length_append, h.1]
  constructor
  · intro heq
    simp [heq] at hlength
  · intro heq
    simp [heq] at hlength

/-- Of names with endings none leads below another, and their ways are the same. -/
theorem Ends.eq_of_below {base leading p q : String} (hp : Ends base leading p)
    (hq : Ends base leading q) (h : target p <+: target q) : p = q := by
  rcases exists_parts_join_append base leading with ⟨way, last, hparts⟩
  rcases hp with ⟨e, he, rfl⟩
  rcases hq with ⟨e', he', rfl⟩
  have hdot := he.append_ne last
  have hdot' := he'.append_ne last
  rw [target_of_parts (hparts e he) hdot.1 hdot.2,
    target_of_parts (hparts e' he') hdot'.1 hdot'.2] at h
  have hlocation := h.eq_of_length (by simp)
  have hlast : last ++ e = last ++ e' := by simpa using hlocation
  have hending : e = e' := by
    have htoList := congrArg String.toList hlast
    rw [String.toList_append, String.toList_append] at htoList
    exact String.toList_inj.1 (List.append_cancel_left htoList)
  rw [hending]

/-- Names with endings are reached by the same parts, up to their last one. -/
theorem Ends.dropLast_parts {base leading p q : String} (hp : Ends base leading p)
    (hq : Ends base leading q) : (parts p).dropLast = (parts q).dropLast := by
  rcases exists_parts_join_append base leading with ⟨way, last, hparts⟩
  rcases hp with ⟨e, he, rfl⟩
  rcases hq with ⟨e', he', rfl⟩
  rw [hparts e he, hparts e' he', List.dropLast_concat, List.dropLast_concat]

end TableFixture.Path
