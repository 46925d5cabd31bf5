import Mathlib.Data.List.Basic
import Hpssix.Base.CText

/-!
# Base.Pieces

A file that is read with `fgets` into a buffer that may be smaller than its
lines.  Each line is cut into pieces of the size of the buffer; the pieces of a
file are the pieces of its lines (`fgets_flatten_lines`), and a text has only
one way to be such pieces (`Pieces.fgets_flatten`).

So a filter that is applied to pieces acts on lines exactly when it treats
every piece of a line as it treats the line (`filter_pieces_iff`).
-/

namespace CText

/-! ## lines with their ends -/

/-- The lines of a file: up to and including a newline, or to the end of the file. -/
def fileLines : Text → List Text
  | [] => []
  | c :: cs =>
      if c = '\n' then [c] :: fileLines cs
      else
        match fileLines cs with
        | [] => [[c]]
        | l :: ls => (c :: l) :: ls

theorem flatten_fileLines (file : Text) : (fileLines file).flatten = file := by
  induction file with
  | nil => rfl
  | cons c cs ih =>
      rw [fileLines]
      split
      · rw [List.flatten_cons, ih, List.singleton_append]
      · cases h : fileLines cs with
        | nil => simpa [h, eq_comm] using ih
        | cons l ls => rw [List.flatten_cons, List.cons_append, ← List.flatten_cons, ← h, ih]

/-- Every line but the last ends with a newline. -/
theorem pairwise_fileLines (file : Text) :
    (fileLines file).Pairwise fun l _ => l.getLast? = some '\n' := by
  induction file with
  | nil => exact List.Pairwise.nil
  | cons c cs ih =>
      rw [fileLines]
      split
      · next h => exact List.pairwise_cons.mpr ⟨fun _ _ => by simp [h], ih⟩
      · cases h : fileLines cs with
        | nil => exact List.pairwise_singleton ..
        | cons l ls =>
            rw [h, List.pairwise_cons] at ih
            refine List.pairwise_cons.mpr ⟨fun l' hl' => ?_, ih.2⟩
            have hl := ih.1 l' hl'
            rw [List.getLast?_cons, hl, Option.getD_some]

/-- The first line of a file. -/
theorem fileLines_line {l : Text} (hl : '\n' ∉ l) (rest : Text) :
    fileLines (l ++ '\n' :: rest) = (l ++ ['\n']) :: fileLines rest := by
  induction l with
  | nil => simp [fileLines]
  | cons c l ih =>
      rw [List.mem_cons, not_or] at hl
      rw [List.cons_append, fileLines, if_neg (Ne.symm hl.1), ih hl.2]
      rfl

/-- A line has a newline only at its end. -/
theorem newline_fileLines {file l : Text} (h : l ∈ fileLines file) :
    l ≠ [] ∧ '\n' ∉ l.dropLast := by
  induction file generalizing l with
  | nil => exact absurd h List.not_mem_nil
  | cons c cs ih =>
      rw [fileLines] at h
      split at h
      · obtain rfl | h := List.mem_cons.mp h
        · simp
        · exact ih h
      · next hc =>
          cases hcs : fileLines cs with
          | nil =>
              rw [hcs] at h
              obtain rfl := List.mem_singleton.mp h
              simp
          | cons k ks =>
              rw [hcs] at h ih
              obtain rfl | h := List.mem_cons.mp h
              · obtain ⟨hne, hk⟩ := ih List.mem_cons_self
                rw [List.dropLast_cons_of_ne_nil hne, List.mem_cons, not_or]
                exact ⟨List.cons_ne_nil c k, fun hn => hc hn.symm, hk⟩
              · exact ih (List.mem_cons_of_mem k h)

/-! ## pieces -/

/-- Pieces that `fgets` can have read with room for that many characters. -/
structure Pieces (room : Nat) (ps : List Text) : Prop where
  whole : ∀ p ∈ ps, p ≠ [] ∧ '\n' ∉ p.dropLast ∧ p.length ≤ room
  ended : ps.Pairwise fun p _ => p.getLast? = some '\n' ∨ p.length = room

/-- A piece that is complete is read whatever follows it. -/
theorem fgetsFrom_piece (room : Nat) (acc : Text) {left : Nat} {p : Text} (rest : Text)
    (hne : p ≠ []) (hnl : '\n' ∉ p.dropLast) (hlen : p.length ≤ left)
    (hend : rest = [] ∨ p.getLast? = some '\n' ∨ p.length = left) :
    fgetsFrom room acc left (p ++ rest) = (acc ++ p) :: fgetsFrom room [] room rest := by
  induction p generalizing acc left with
  | nil => exact absurd rfl hne
  | cons c p ih =>
      rw [List.cons_append, fgetsFrom]
      cases p with
      | nil =>
          split
          · rfl
          · next h =>
              simp only [List.getLast?_singleton, Option.some.injEq, List.length_cons,
                List.length_nil] at hend
              obtain rfl : rest = [] := by grind
              simp [fgetsFrom]
      | cons d p =>
          rw [List.dropLast_cons_of_ne_nil (List.cons_ne_nil d p), List.mem_cons, not_or] at hnl
          simp only [List.length_cons] at hlen hend
          rw [if_neg (by grind), ih (acc ++ [c]) (List.cons_ne_nil d p) hnl.2
            (by simp only [List.length_cons]; omega) ?_]
          · simp
          · rw [List.getLast?_cons_cons] at hend
            simp only [List.length_cons]
            grind

section Room
variable {room : Nat} {ps : List Text}

theorem Pieces.filter (h : Pieces room ps) (keep : Text → Bool) : Pieces room (ps.filter keep) where
  whole p hp := h.whole p (List.mem_of_mem_filter hp)
  ended := h.ended.filter keep

/-- What `fgets` reads of pieces are these pieces. -/
theorem Pieces.fgets_flatten (h : Pieces room ps) : fgetsFrom room [] room ps.flatten = ps := by
  induction ps with
  | nil => rfl
  | cons p ps ih =>
      obtain ⟨hne, hnl, hlen⟩ := h.whole p List.mem_cons_self
      obtain ⟨hended, hrest⟩ := List.pairwise_cons.mp h.ended
      have hflat := ih ⟨fun q hq => h.whole q (List.mem_cons_of_mem p hq), hrest⟩
      rw [List.flatten_cons, fgetsFrom_piece room [] ps.flatten hne hnl hlen, hflat, List.nil_append]
      cases ps with
      | nil => exact .inl rfl
      | cons q ps => exact .inr (hended q List.mem_cons_self)

/-- What `fgets` reads are pieces. -/
theorem pieces_fgets (hroom : 0 < room) (s : Text) : Pieces room (fgetsFrom room [] room s) := by
  induction hs : s.length using Nat.strongRecOn generalizing s with
  | ind n ih =>
      by_cases hnil : s = []
      · subst hnil
        exact ⟨fun p hp => absurd hp List.not_mem_nil, List.Pairwise.nil⟩
      · obtain ⟨p, rest, hp, rfl, hne, hlen, hnl, hend⟩ := fgetsFrom_cons room [] hroom hnil
        have hpos := List.length_pos_of_ne_nil hne
        have hrest := ih rest.length (by rw [← hs, List.length_append]; omega) rest rfl
        rw [List.nil_append] at hp
        rw [hp]
        refine ⟨?_, List.pairwise_cons.mpr ⟨fun q hq => ?_, hrest.ended⟩⟩
        · rintro q (_ | ⟨_, hq⟩)
          · exact ⟨hne, hnl, hlen⟩
          · exact hrest.whole q hq
        · obtain rfl | hend := hend
          · exact absurd hq List.not_mem_nil
          · exact hend

/-- Lines are read one after the other. -/
theorem fgets_flatten_lines {ls : List Text} (h : ls.Pairwise fun l _ => l.getLast? = some '\n') :
    fgetsFrom room [] room ls.flatten = ls.flatMap (fgetsFrom room [] room) := by
  induction ls with
  | nil => rfl
  | cons l ls ih =>
      obtain ⟨hl, hrest⟩ := List.pairwise_cons.mp h
      rw [List.flatMap_cons, ← ih hrest, List.flatten_cons]
      cases ls with
      | nil => simp [fgetsFrom]
      | cons l' ls =>
          obtain ⟨s, rfl⟩ := List.getLast?_eq_some_iff.mp (hl l' List.mem_cons_self)
          rw [List.append_assoc, List.singleton_append, fgetsFrom_append]

/-! ## filters -/

/-- Where the lines that are kept are kept whole, the other lines can only add to what
is left, and add nothing only if they are dropped whole. -/
theorem length_filter_flatMap {ls : List Text} {cut : Text → List Text} {keep : Text → Bool}
    (h : ∀ l ∈ ls, keep l = true → ∀ p ∈ cut l, keep p = true) :
    ((ls.filter keep).flatMap cut).length ≤ ((ls.flatMap cut).filter keep).length ∧
      (((ls.filter keep).flatMap cut).length = ((ls.flatMap cut).filter keep).length →
        ∀ l ∈ ls, ∀ p ∈ cut l, keep p = keep l) := by
  induction ls with
  | nil => simp
  | cons l ls ih =>
      obtain ⟨hle, heq⟩ := ih fun k hk => h k (List.mem_cons_of_mem l hk)
      rw [List.flatMap_cons, List.filter_append, List.length_append, List.forall_mem_cons]
      cases hkeep : keep l with
      | false =>
          rw [List.filter_cons_of_neg (by simp [hkeep])]
          refine ⟨by omega, fun hlen => ⟨fun p hp => ?_, heq (by omega)⟩⟩
          have hnone : (cut l).filter keep = [] := List.eq_nil_of_length_eq_zero (by omega)
          simpa using List.filter_eq_nil_iff.mp hnone p hp
      | true =>
          have hall := h l List.mem_cons_self hkeep
          rw [List.filter_cons_of_pos hkeep, List.flatMap_cons, List.length_append,
            List.filter_eq_self.mpr hall]
          exact ⟨by omega, fun hlen => ⟨hall, heq (by omega)⟩⟩

/-- Pieces of lines, filtered: they are those of the filtered lines exactly if the
filter does not tell a piece from its line. -/
theorem filter_flatMap_iff {ls : List Text} {cut : Text → List Text} {keep : Text → Bool} :
    (ls.flatMap cut).filter keep = (ls.filter keep).flatMap cut ↔
      ∀ l ∈ ls, ∀ p ∈ cut l, keep p = keep l := by
  constructor
  · intro h
    refine (length_filter_flatMap fun l hl hkeep p hp => ?_).2 (congrArg List.length h.symm)
    have hmem : p ∈ (ls.filter keep).flatMap cut :=
      List.mem_flatMap.mpr ⟨l, List.mem_filter.mpr ⟨hl, hkeep⟩, hp⟩
    rw [← h] at hmem
    exact (List.mem_filter.mp hmem).2
  · intro h
    induction ls with
    | nil => rfl
    | cons l ls ih =>
        have hl := h l List.mem_cons_self
        rw [List.flatMap_cons, List.filter_append, ih fun k hk => h k (List.mem_cons_of_mem l hk)]
        cases hkeep : keep l with
        | false =>
            rw [List.filter_cons_of_neg (by simp [hkeep]),
              List.filter_eq_nil_iff.mpr fun p hp => by simp [hl p hp, hkeep], List.nil_append]
        | true =>
            rw [List.filter_cons_of_pos hkeep, List.flatMap_cons,
              List.filter_eq_self.mpr fun p hp => by rw [hl p hp, hkeep]]

/-- **Filtering pieces**: the pieces that a filter keeps make up the lines that it keeps
exactly if it treats every piece as the line it belongs to. -/
theorem filter_pieces_iff (hroom : 0 < room) (keep : Text → Bool) (file : Text) :
    ((fgetsFrom room [] room file).filter keep).flatten = ((fileLines file).filter keep).flatten ↔
      ∀ l ∈ fileLines file, ∀ p ∈ fgetsFrom room [] room l, keep p = keep l := by
  have hlines := pairwise_fileLines file
  have hcut : fgetsFrom room [] room (fileLines file).flatten =
      (fileLines file).flatMap (fgetsFrom room [] room) := fgets_flatten_lines hlines
  rw [flatten_fileLines] at hcut
  rw [← filter_flatMap_iff, ← fgets_flatten_lines (hlines.filter keep), ← hcut]
  constructor
  · intro h
    rw [← h, ((pieces_fgets hroom file).filter keep).fgets_flatten]
  · intro h
    rw [h, flatten_fgetsFrom, List.nil_append]

end Room

end CText
