import Hpssix.Base.Pieces
import Hpssix.ExtFilter
import Hpssix.ParseOp

/-!
# Hpssix.ExtfilterLoad

How the whitelist of extensions is loaded (`hpssix_extfilter_get` and
`trim_extension` in `libhpssix/src/hpssix-config.c`): one pass over the file
counts the lines with an extension, and another one stores the extensions in an
array of that size.

* `extfilter_loaded_iff` — for which files the filter has the extensions of the
  file: those without a NUL in a line that counts.
-/

namespace Hpssix

open CText Fate

/-! ## the loader -/

namespace Loader

/-- The loop at the end of a string; `pos` is one behind what it points at.  There is nothing
in front of the first character. -/
def trimBack (str : Text) : Nat → Fate Text
  | 0 => crash
  | pos + 1 => do
    let c ← charAt str pos
    if c ≠ Char.ofNat 0 ∧ isSpace c then trimBack (str.take pos) pos else pure str

/-- `trim_extension`. -/
def trimExtension (str : Text) : Fate Text := do
  let trimmed ← trimBack str str.length
  pure (trimmed.map Char.toLower)

/-- The lines that both passes go on with. -/
def isSkipped (linebuf : Text) : Bool := linebuf.head?.any fun c => isSpace c || c = '#'

/-- What the loader meets: the file and the memory that can be had, and how many lines are
read before an error. -/
structure Env where
  fopen : Bool := true
  firstError : Option Nat := none
  malloc : Bool := true
  strdup : Nat → Bool := fun _ => true
  secondError : Option Nat := none

/-- `hpssix_extfilter_t`, with room for that many extensions. -/
structure Extfilter where
  nExts : Nat
  exts : List (Option Text)
deriving DecidableEq

/-- What `fgets` reads before an error. -/
def readUntil (error : Option Nat) (pieces : List Text) : List Text :=
  error.elim pieces fun n => pieces.take n

/-- The first pass. -/
def countLines : List Text → Nat → Nat
  | [], lines => lines
  | linebuf :: pieces, lines =>
    if isSkipped linebuf then countLines pieces lines else countLines pieces (lines + 1)

/-- The second pass: the array, and the number of lines, if it was not given up. -/
def storeExts (strdup : Nat → Bool) : List Text → Nat → List (Option Text) →
    Fate (List (Option Text) × Option Nat)
  | [], lines, exts => done (exts, some lines)
  | linebuf :: pieces, lines, exts =>
    if isSkipped linebuf then storeExts strdup pieces lines exts
    else do
      let current ← trimExtension (cString linebuf)
      if !strdup lines then pure (exts, none)
      else if lines < exts.length then
        storeExts strdup pieces (lines + 1) (exts.set lines (some current))
      else crash

/-- `hpssix_extfilter_get`. -/
def hpssixExtfilterGet (env : Env) (file : Text) : Fate (Option Extfilter) :=
  let pieces := fgets (lineMax - 1) file
  if !env.fopen then done none
  else
    let lines := countLines (readUntil env.firstError pieces) 0
    if env.firstError.isSome || !env.malloc then done none
    else do
      let (exts, stored) ← storeExts env.strdup (readUntil env.secondError pieces) 0
        (List.replicate lines none)
      pure (some { nExts := if env.secondError.isSome then 0 else stored.getD 0, exts })

end Loader

/-! ## the specification -/

/-- The extensions of a file: its lines that begin with neither white space nor `#`, without
the white space at their end, in lower case. -/
def specifiedExts (file : Text) : List Text := (fileLines file).filterMap extfilterEntry

/-- The loader returns a filter with the extensions of the file, and none of them is empty. -/
def Loads (file : Text) : Prop :=
  ∃ filter, Loader.hpssixExtfilterGet {} file = done (some filter) ∧
    filter.nExts = (specifiedExts file).length ∧
    filter.exts.take filter.nExts = (specifiedExts file).map some ∧
    ∀ e, some e ∈ filter.exts.take filter.nExts → e ≠ []

namespace Loader

/-! ## the end of a string -/

theorem trimEnd_concat_of_isSpace {s : Text} {c : Char} (hc : isSpace c = true) :
    trimEnd (s ++ [c]) = trimEnd s :=
  trimEnd_append fun d hd => by rwa [List.mem_singleton.mp hd]

theorem trimEnd_concat_of_not_isSpace {s : Text} {c : Char} (hc : isSpace c = false) :
    trimEnd (s ++ [c]) = s ++ [c] := by
  rw [trimEnd, List.reverse_append, List.reverse_singleton, List.singleton_append,
    List.dropWhile_cons_of_neg (by simp [hc]), List.reverse_cons, List.reverse_reverse]

theorem charAt_append_length (s : Text) (c : Char) (t : Text) :
    charAt (s ++ c :: t) s.length = done c := by
  simp [charAt]

/-- The loop stays in a string that does not begin with white space. -/
theorem trimBack_eq_done {s : Text} (h : s.head?.any (fun c => !isSpace c) = true) :
    trimBack s s.length = done (trimEnd s) := by
  induction s using List.reverseRecOn with
  | nil => cases h
  | append_singleton s c ih =>
      rw [List.length_append, List.length_singleton, trimBack, charAt_append_length, done_bind]
      cases hc : isSpace c with
      | false =>
          rw [if_neg (by simp), trimEnd_concat_of_not_isSpace hc]
          rfl
      | true =>
          -- a white space is not the first character
          have hne : s ≠ [] := by
            rintro rfl
            simp [hc] at h
          have hnul : c ≠ Char.ofNat 0 := by
            rintro rfl
            cases hc
          obtain ⟨d, t, rfl⟩ := List.exists_cons_of_ne_nil hne
          rw [if_pos ⟨hnul, rfl⟩, List.take_left, ih h, trimEnd_concat_of_isSpace hc]

/-- An extension that begins with a character is trimmed inside its buffer. -/
theorem trimExtension_eq_done {s : Text} (h : s.head?.any (fun c => !isSpace c) = true) :
    trimExtension s = done (Hpssix.trimExtension s) := by
  rw [trimExtension, trimBack_eq_done h]
  rfl

/-- An empty string has no last character. -/
theorem trimExtension_nil : trimExtension [] = crash := rfl

/-! ## the two passes -/

/-- The lines that count. -/
def selected (pieces : List Text) : List Text := pieces.filter fun p => !isSkipped p

/-- The lines that are kept. -/
theorem mem_selected {pieces : List Text} {p : Text} :
    p ∈ selected pieces ↔ p ∈ pieces ∧ isSkipped p = false := by
  simp [selected]

/-- The count of the first pass is the number of lines that are kept. -/
theorem countLines_eq (pieces : List Text) (n : Nat) :
    countLines pieces n = n + (selected pieces).length := by
  induction pieces generalizing n with
  | nil => rfl
  | cons p ps ih =>
      rw [countLines, selected, List.filter_cons]
      by_cases h : isSkipped p = true
      · rw [if_pos h, ih, h]
        rfl
      · rw [if_neg h, ih, if_pos (by simpa using h), List.length_cons, selected]
        omega

/-- A line that counts begins with a character of its extension, unless it is a NUL. -/
theorem head?_cString {p : Text} (hne : p ≠ []) (h : isSkipped p = false)
    (hnul : p.head? ≠ some (Char.ofNat 0)) :
    (cString p).head?.any (fun c => !isSpace c) = true := by
  obtain ⟨c, t, rfl⟩ := List.exists_cons_of_ne_nil hne
  have hc : c ≠ Char.ofNat 0 := fun heq => hnul (congrArg some heq)
  have hcons : cString (c :: t) = c :: cString t := List.takeWhile_cons_of_pos (by simpa using hc)
  rw [hcons]
  simp only [isSkipped, List.head?_cons, Option.any_some, Bool.or_eq_false_iff] at h ⊢
  rw [h.1]
  rfl

section Passes
variable {pieces : List Text} {strdup : Nat → Bool}

/-- Every line that was stored was trimmed. -/
theorem trimExtension_of_storeExts {n : Nat} {exts : List (Option Text)}
    {r : List (Option Text) × Option Nat}
    (h : storeExts (fun _ => true) pieces n exts = done r) :
    ∀ p ∈ selected pieces, ∃ e, trimExtension (cString p) = done e := by
  induction pieces generalizing n exts with
  | nil => exact fun p hp => absurd hp List.not_mem_nil
  | cons p ps ih =>
      rw [storeExts] at h
      rw [selected, List.filter_cons]
      by_cases hskip : isSkipped p = true
      · rw [if_pos hskip] at h
        rw [if_neg (by simp [hskip])]
        exact ih h
      · rw [if_neg hskip, bind_eq_done] at h
        obtain ⟨current, hcurrent, h⟩ := h
        simp only [Bool.not_true, Bool.false_eq_true, if_false] at h
        rw [if_pos (by simpa using hskip), List.forall_mem_cons]
        refine ⟨⟨current, hcurrent⟩, ?_⟩
        split at h
        · exact ih h
        · cases h

/-- The array is filled from the front. -/
theorem storeExts_eq_done (h : ∀ p ∈ selected pieces, trimExtension (cString p) =
      done (Hpssix.trimExtension (cString p))) (stored : List Text) {room : Nat}
    (hroom : (selected pieces).length = room) :
    storeExts (fun _ => true) pieces stored.length (stored.map some ++ List.replicate room none) =
      done ((stored ++ (selected pieces).map fun p => Hpssix.trimExtension (cString p)).map some,
        some (stored.length + room)) := by
  induction pieces generalizing stored room with
  | nil =>
      subst hroom
      simp [storeExts, selected]
  | cons p ps ih =>
      by_cases hskip : isSkipped p = true
      · have hsel : selected (p :: ps) = selected ps := List.filter_cons_of_neg (by simp [hskip])
        rw [hsel] at h hroom ⊢
        rw [storeExts, if_pos hskip, ih h stored hroom]
      · have hsel : selected (p :: ps) = p :: selected ps :=
          List.filter_cons_of_pos (by simpa using hskip)
        rw [hsel] at h hroom ⊢
        obtain ⟨hp, hps⟩ := List.forall_mem_cons.mp h
        obtain ⟨n, rfl⟩ : ∃ n, room = n + 1 := ⟨(selected ps).length, hroom.symm⟩
        have hset : (stored.map some ++ List.replicate (n + 1) (none : Option Text)).set stored.length
            (some (Hpssix.trimExtension (cString p))) =
            (stored ++ [Hpssix.trimExtension (cString p)]).map some ++ List.replicate n none := by
          simp [List.replicate_succ]
        have hrest := @ih hps (stored ++ [Hpssix.trimExtension (cString p)]) n (by simpa using hroom)
        rw [List.length_append, List.length_singleton] at hrest
        rw [storeExts, if_neg hskip, hp, done_bind, if_neg (by simp), if_pos (by simp), hset, hrest]
        simp only [List.map_cons, List.append_assoc, List.singleton_append]
        congr 3
        omega

/-- The second pass stores no more than there is room for, whatever it meets. -/
theorem storeExts_ne_crash (h : ∀ p ∈ selected pieces, ∃ e, trimExtension (cString p) = done e)
    {n : Nat} {exts : List (Option Text)} (hroom : n + (selected pieces).length ≤ exts.length) :
    storeExts strdup pieces n exts ≠ crash := by
  induction pieces generalizing n exts with
  | nil => simp [storeExts]
  | cons p ps ih =>
      by_cases hskip : isSkipped p = true
      · have hsel : selected (p :: ps) = selected ps := List.filter_cons_of_neg (by simp [hskip])
        rw [hsel] at h hroom
        rw [storeExts, if_pos hskip]
        exact ih h hroom
      · have hsel : selected (p :: ps) = p :: selected ps :=
          List.filter_cons_of_pos (by simpa using hskip)
        rw [hsel] at h hroom
        obtain ⟨⟨current, hcurrent⟩, hps⟩ := List.forall_mem_cons.mp h
        rw [List.length_cons] at hroom
        rw [storeExts, if_neg hskip, hcurrent, done_bind]
        split
        · simp
        · rw [if_pos (by omega)]
          exact ih hps (by rw [List.length_set]; omega)

end Passes

/-! ## the file -/

variable {file : Text}

/-- Lines that are shorter than the limit are read one by one. -/
theorem fgets_eq_fileLines (hfits : ∀ l ∈ fileLines file, l.length < lineMax - 1) :
    fgets (lineMax - 1) file = fileLines file := by
  have hpieces : Pieces (lineMax - 1 - 1) (fileLines file) := by
    refine ⟨fun l hl => ?_, (pairwise_fileLines file).imp Or.inl⟩
    obtain ⟨hne, hnl⟩ := newline_fileLines hl
    exact ⟨hne, hnl, Nat.le_sub_one_of_lt (hfits l hl)⟩
  have hflat := hpieces.fgets_flatten
  rwa [flatten_fileLines] at hflat

/-- The extensions that the file specifies. -/
theorem specifiedExts_eq (file : Text) :
    specifiedExts file = (selected (fileLines file)).map Hpssix.trimExtension := by
  have hentry : ∀ l ∈ fileLines file, extfilterEntry l =
      if isSkipped l = true then none else some (Hpssix.trimExtension l) := by
    intro l hl
    obtain ⟨c, t, rfl⟩ := List.exists_cons_of_ne_nil (newline_fileLines hl).1
    rfl
  rw [specifiedExts, selected]
  generalize fileLines file = ls at hentry
  induction ls with
  | nil => rfl
  | cons l ls ih =>
      obtain ⟨hl, hls⟩ := List.forall_mem_cons.mp hentry
      rw [List.filterMap_cons, hl, List.filter_cons, ih hls]
      cases isSkipped l <;> rfl

/-- What the loader stores, if it does not look in front of a string. -/
theorem hpssixExtfilterGet_eq_done (hfits : ∀ l ∈ fileLines file, l.length < lineMax - 1)
    (h : ∀ l ∈ selected (fileLines file), trimExtension (cString l) =
      done (Hpssix.trimExtension (cString l))) :
    hpssixExtfilterGet {} file = done (some {
      nExts := (selected (fileLines file)).length
      exts := ((selected (fileLines file)).map fun l => Hpssix.trimExtension (cString l)).map some }) := by
  have hstore := storeExts_eq_done h [] rfl
  simp only [List.map_nil, List.nil_append, List.length_nil, Nat.zero_add] at hstore
  simp [hpssixExtfilterGet, readUntil, fgets_eq_fileLines hfits, countLines_eq, hstore]

/-- A filter is returned only if every line that counts was trimmed. -/
theorem trimExtension_of_hpssixExtfilterGet {filter : Extfilter}
    (hfits : ∀ l ∈ fileLines file, l.length < lineMax - 1)
    (h : hpssixExtfilterGet {} file = done (some filter)) :
    ∀ l ∈ selected (fileLines file), ∃ e, trimExtension (cString l) = done e := by
  simp only [hpssixExtfilterGet, readUntil, fgets_eq_fileLines hfits, Bool.not_true,
    Bool.false_eq_true, if_false, Option.isSome_none, Bool.or_self, Option.elim_none] at h
  obtain ⟨⟨exts, stored⟩, hstore, -⟩ := bind_eq_done.mp h
  exact trimExtension_of_storeExts hstore

/-- Where a line that counts begins with a NUL, there is nothing to trim. -/
theorem trimExtension_iff {l : Text} (hne : l ≠ []) (h : isSkipped l = false) :
    (∃ e, trimExtension (cString l) = done e) ↔ l.head? ≠ some (Char.ofNat 0) := by
  constructor
  · rintro ⟨e, he⟩ hnul
    obtain ⟨c, t, rfl⟩ := List.exists_cons_of_ne_nil hne
    obtain rfl : c = Char.ofNat 0 := Option.some.inj hnul
    have hnil : cString (Char.ofNat 0 :: t) = [] := List.takeWhile_cons_of_neg (by simp)
    rw [hnil, trimExtension_nil] at he
    cases he
  · exact fun hnul => ⟨_, trimExtension_eq_done (head?_cString hne h hnul)⟩

/-- **Bounds**: whatever the loader meets, it stays in its strings and in its array if no
line that counts begins with a NUL. -/
theorem hpssixExtfilterGet_ne_crash {env : Env}
    (h : ∀ p ∈ selected (fgets (lineMax - 1) file), p.head? ≠ some (Char.ofNat 0)) :
    hpssixExtfilterGet env file ≠ crash := by
  have hpieces : ∀ p ∈ fgets (lineMax - 1) file, p ≠ [] := fun p hp =>
    ((pieces_fgets (by decide) file).whole p hp).1
  have htrim : ∀ p ∈ selected (readUntil env.secondError (fgets (lineMax - 1) file)),
      ∃ e, trimExtension (cString p) = done e := by
    intro p hp
    obtain ⟨hmem, hskip⟩ := mem_selected.mp hp
    have hread : p ∈ fgets (lineMax - 1) file := by
      cases herr : env.secondError with
      | none => simpa [readUntil, herr] using hmem
      | some n =>
          rw [herr] at hmem
          exact List.mem_of_mem_take hmem
    exact (trimExtension_iff (hpieces p hread) hskip).mpr (h p (mem_selected.mpr ⟨hread, hskip⟩))
  have hcount : (selected (readUntil env.secondError (fgets (lineMax - 1) file))).length ≤
      (selected (fgets (lineMax - 1) file)).length := by
    cases env.secondError with
    | none => exact le_rfl
    | some n => exact ((List.take_sublist n _).filter _).length_le
  unfold hpssixExtfilterGet
  split
  · simp
  · split
    · simp
    · next herr =>
        have hfirst : env.firstError = none := by
          simpa using fun h' : env.firstError.isSome = true => herr (by simp [h'])
        have hroom : 0 + (selected (readUntil env.secondError (fgets (lineMax - 1) file))).length ≤
            (List.replicate (countLines (readUntil env.firstError (fgets (lineMax - 1) file)) 0)
              (none : Option Text)).length := by
          rw [List.length_replicate, countLines_eq, hfirst]
          simpa [readUntil] using hcount
        have hstore := @storeExts_ne_crash _ env.strdup htrim _ _ hroom
        cases hresult : storeExts env.strdup (readUntil env.secondError (fgets (lineMax - 1) file)) 0
            (List.replicate (countLines (readUntil env.firstError (fgets (lineMax - 1) file)) 0)
              none) with
        | done r => simp [hresult]
        | hang => simp [hresult]
        | crash => exact absurd hresult hstore

end Loader

/-! ## the whitelist -/

theorem length_trimEnd_le (s : Text) : (trimEnd s).length ≤ s.length := by
  obtain ⟨ws, hws, -⟩ := exists_trimEnd s
  have hlen := congrArg List.length hws
  rw [List.length_append] at hlen
  omega

/-- A NUL is no white space, and what is behind it is lost. -/
theorem trimExtension_cString_iff {l : Text} :
    trimExtension (cString l) = trimExtension l ↔ Char.ofNat 0 ∉ l := by
  constructor
  · intro h hnul
    obtain ⟨ws, hws, hspace⟩ := exists_trimEnd l
    have hmem : Char.ofNat 0 ∈ trimEnd l := by
      rw [hws, List.mem_append] at hnul
      exact hnul.resolve_right fun hin => absurd (hspace _ hin) (by decide)
    obtain ⟨a, b, hab, ha⟩ := List.eq_append_cons_of_mem hmem
    have hstring : cString l = a := by
      rw [hws, hab, List.append_assoc, List.cons_append]
      exact (split_first ha).1
    have hlen := congrArg List.length h
    have hle := length_trimEnd_le a
    rw [trimExtension, trimExtension, List.length_map, List.length_map, hstring, hab,
      List.length_append, List.length_cons] at hlen
    omega
  · intro hnul
    rw [cString_eq_self hnul]

/-- An extension has its first character. -/
theorem ne_nil_of_mem_specifiedExts {file e : Text} (h : e ∈ specifiedExts file) : e ≠ [] := by
  obtain ⟨l, hl, hentry⟩ := List.mem_filterMap.mp h
  have hlen := length_of_extfilterEntry hentry
  rintro rfl
  obtain ⟨ws, hws, hspace⟩ := exists_trimEnd l
  have hnil : trimEnd l = [] := List.length_eq_zero_iff.mp hlen.symm
  rw [hnil, List.nil_append] at hws
  unfold extfilterEntry at hentry
  split at hentry
  · cases hentry
  · next c cs =>
      have hc : isSpace c = true := hspace c (hws ▸ List.mem_cons_self)
      simp [hc] at hentry

/-- **The whitelist** of a file with short lines is loaded as it is specified exactly if no
line that counts has a NUL in it. -/
theorem extfilter_loaded_iff {file : Text} (hfits : ∀ l ∈ fileLines file, l.length < lineMax - 1) :
    Loads file ↔ ∀ l ∈ fileLines file, Loader.isSkipped l = false → Char.ofNat 0 ∉ l := by
  have hspec := Loader.specifiedExts_eq file
  have hne : ∀ l ∈ fileLines file, l ≠ [] := fun l hl => (newline_fileLines hl).1
  constructor
  · rintro ⟨filter, hget, hcount, hexts, -⟩ l hl hskip
    have htrim := Loader.trimExtension_of_hpssixExtfilterGet hfits hget
    have hdone : ∀ l ∈ Loader.selected (fileLines file),
        Loader.trimExtension (cString l) = done (trimExtension (cString l)) := by
      intro l hl
      obtain ⟨hmem, hskip⟩ := Loader.mem_selected.mp hl
      exact Loader.trimExtension_eq_done (Loader.head?_cString (hne l hmem) hskip
        ((Loader.trimExtension_iff (hne l hmem) hskip).mp (htrim l hl)))
    rw [Loader.hpssixExtfilterGet_eq_done hfits hdone, done.injEq, Option.some.injEq] at hget
    subst hget
    -- what is stored for a line is what is specified for it
    rw [List.take_of_length_le (by simp), hspec] at hexts
    have hmap := List.map_injective_iff.mpr (Option.some_injective Text) hexts
    exact trimExtension_cString_iff.mp (List.map_inj_left.mp hmap l (Loader.mem_selected.mpr ⟨hl, hskip⟩))
  · intro h
    have hstring : ∀ l ∈ Loader.selected (fileLines file), cString l = l := fun l hl =>
      cString_eq_self (h l (Loader.mem_selected.mp hl).1 (Loader.mem_selected.mp hl).2)
    have hdone : ∀ l ∈ Loader.selected (fileLines file),
        Loader.trimExtension (cString l) = done (trimExtension (cString l)) := by
      intro l hl
      obtain ⟨hmem, hskip⟩ := Loader.mem_selected.mp hl
      refine Loader.trimExtension_eq_done (Loader.head?_cString (hne l hmem) hskip fun hhead => ?_)
      exact h l hmem hskip (List.mem_of_mem_head? hhead)
    have hmap : (Loader.selected (fileLines file)).map (fun l => trimExtension (cString l)) =
        specifiedExts file := by
      rw [hspec]
      exact List.map_congr_left fun l hl => by rw [hstring l hl]
    have hlen : (Loader.selected (fileLines file)).length = (specifiedExts file).length := by
      rw [← hmap, List.length_map]
    refine ⟨_, Loader.hpssixExtfilterGet_eq_done hfits hdone, hlen, ?_, ?_⟩
    · rw [hmap, hlen, List.take_of_length_le (by simp)]
    · rw [hmap, hlen, List.take_of_length_le (by simp)]
      intro e he
      obtain ⟨e', he', heq⟩ := List.mem_map.mp he
      obtain rfl := Option.some.inj heq
      exact ne_nil_of_mem_specifiedExts he'

/-- A line that begins with a NUL counts, and its string is empty. -/
theorem nul_line_not_loaded : ¬ ∀ file : Text, (∀ l ∈ fileLines file, l.length < lineMax - 1) →
    Loads file := by
  intro h
  obtain ⟨filter, hget, -⟩ := h [Char.ofNat 0, '\n'] (by decide)
  have hcrash : Loader.hpssixExtfilterGet {} [Char.ofNat 0, '\n'] = crash := by decide +kernel
  rw [hcrash] at hget
  cases hget

/-- A carriage return, a comment, and a last line without a newline. -/
theorem extfilter_loaded_iff_doc :
    (∀ l ∈ fileLines [ 'D', 'o', 'c', '\r', '\n', '#', '\n', 'p' ], l.length < lineMax - 1) ∧
      (Loads [ 'D', 'o', 'c', '\r', '\n', '#', '\n', 'p' ] ↔
        ∀ l ∈ fileLines [ 'D', 'o', 'c', '\r', '\n', '#', '\n', 'p' ],
          Loader.isSkipped l = false → Char.ofNat 0 ∉ l) :=
  ⟨by decide, extfilter_loaded_iff (by decide)⟩

end Hpssix
