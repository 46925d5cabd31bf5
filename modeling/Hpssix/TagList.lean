import Hpssix.Base.CText
import Hpssix.Base.Fate

/-!
# Hpssix.TagList

The list of tags that `hpssix-tag list` prints
(`utils/hpssix-tag/src/hpssix-tag-xattr.c`) for the attributes of a file, which
`llistxattr` returns one behind the other, each with a NUL.

* `tag_list_iff` — for which prefixes and attributes the tags are printed: no
  attribute goes on behind the prefix without the separator.
-/

namespace Hpssix

open CText Fate

/-! ## tag_print_list -/

namespace TagList

/-- `'\0'`. -/
def nul : Char := Char.ofNat 0

/-- `*pos`.  A pointer into the buffer is what is left of the buffer from there on. -/
def load : Text → Fate Char
  | [] => crash
  | c :: _ => done c

/-- The string at a pointer. -/
def stringAt : Text → Fate Text
  | [] => crash
  | c :: pos =>
    if c = nul then done []
    else do
      let s ← stringAt pos
      pure (c :: s)

/-- `while (*pos != '\0') pos++;` -/
def skipString : Text → Fate Text
  | [] => crash
  | c :: pos => if c = nul then done (c :: pos) else skipString pos

/-- `0 == strncmp(xname, name, strlen(xname))`. -/
def strncmpEq : Text → Text → Fate Bool
  | [], _ => done true
  | _ :: _, [] => crash
  | x :: xname, c :: name => if x = c then strncmpEq xname name else done false

/-- What is printed for the string at `name`. -/
def printName (xname : Text) (printAll : Bool) (name : Text) : Fate (List Text) := do
  if printAll then
    let s ← stringAt name
    pure [s]
  else
    let own ← strncmpEq xname name
    if own then
      let s ← stringAt (name.drop (xname.length + 1))
      pure [s]
    else pure []

/-- The loop, for that many rounds at most. -/
def printLoop (xname : Text) (printAll : Bool) (len : Nat) : Nat → Text → Nat → Fate (List Text)
  | 0, _, _ => hang
  | rounds + 1, name, processed => do
    let c ← load name
    if c = nul then pure []
    else
      let pos ← skipString name
      let printed ← printName xname printAll name
      let s ← stringAt name
      let processed := processed + s.length
      if len ≤ processed then pure printed
      else
        let more ← printLoop xname printAll len rounds pos.tail processed
        pure (printed ++ more)

/-- `sprintf(xname, "user.%s", …)` into `xname[64]`. -/
def xnameOf (tagPrefix : Text) : Fate Text :=
  if ("user.".toList ++ tagPrefix).length < 64 then done ("user.".toList ++ tagPrefix) else crash

/-- `tag_print_list`: the names that it prints. -/
def tagPrintList (tagPrefix list : Text) (len : Nat) (printAll : Bool) (rounds : Nat) :
    Fate (List Text) := do
  let xname ← xnameOf tagPrefix
  printLoop xname printAll len rounds list 0

end TagList

/-- The attribute that `hpssix-tag set` writes for a tag. -/
def setXname (tagPrefix name : Text) : Text := "user.".toList ++ tagPrefix ++ '.' :: name

/-- The name of the tag of an attribute. -/
def tagOf (tagPrefix xname : Text) : Option Text :=
  if setXname tagPrefix [] <+: xname ∧ setXname tagPrefix [] ≠ xname then
    some (xname.drop (setXname tagPrefix []).length)
  else none

/-- The attributes of a file, and the configured prefix. -/
structure Listing where
  tagPrefix : Text
  names : List Text
  noNul : TagList.nul ∉ tagPrefix ∧ ∀ n ∈ names, TagList.nul ∉ n
  nonempty : ∀ n ∈ names, n ≠ []
  nodup : names.Nodup

namespace Listing
variable (q : Listing)

/-- What `llistxattr` returns. -/
def bytes : Text := q.names.flatMap (· ++ [TagList.nul])

/-- The names of the tags. -/
def tags : List Text := q.names.filterMap (tagOf q.tagPrefix)

/-- `hpssix_tag_cmd_list_func` from its second `llistxattr` on: the buffer has a zero more. -/
def print (printAll : Bool) (rounds : Nat) : Fate (List Text) :=
  TagList.tagPrintList q.tagPrefix (q.bytes ++ [TagList.nul]) q.bytes.length printAll rounds

/-- The tags are printed, and with `--all` all attributes. -/
def Printed : Prop :=
  (∃ rounds, q.print false rounds = done q.tags) ∧ ∃ rounds, q.print true rounds = done q.names

end Listing

/-! ## strings in the buffer -/

namespace TagList

section Strings
variable {s t xname : Text}

/-- A string in the buffer ends at its NUL. -/
theorem stringAt_append (hs : nul ∉ s) : stringAt (s ++ nul :: t) = done s := by
  induction s with
  | nil => rfl
  | cons c s ih =>
      rw [List.mem_cons, not_or] at hs
      rw [List.cons_append, stringAt, if_neg (Ne.symm hs.1), ih hs.2, done_bind]
      rfl

/-- The loop over a string stops at its NUL. -/
theorem skipString_append (hs : nul ∉ s) : skipString (s ++ nul :: t) = done (nul :: t) := by
  induction s with
  | nil => rfl
  | cons c s ih =>
      rw [List.mem_cons, not_or] at hs
      rw [List.cons_append, skipString, if_neg (Ne.symm hs.1), ih hs.2]

/-- The comparison does not look behind the end of the string. -/
theorem strncmpEq_append (hx : nul ∉ xname) :
    strncmpEq xname (s ++ nul :: t) = done (decide (xname <+: s)) := by
  induction xname generalizing s with
  | nil => simp [strncmpEq]
  | cons x xname ih =>
      rw [List.mem_cons, not_or] at hx
      cases s with
      | nil => simp [strncmpEq, Ne.symm hx.1]
      | cons c s =>
          rw [List.cons_append, strncmpEq, ih hx.2]
          by_cases hc : x = c
          · simp [hc]
          · simp [hc]

end Strings

/-! ## the loop -/

/-- What is printed for an attribute that has the prefix; where it goes no further, it is the
next one. -/
def printedName (xname : Text) (printAll : Bool) (s : Text) (rest : List Text) : List Text :=
  if printAll then [s]
  else if xname <+: s then [if s = xname then rest.headD [] else s.drop (xname.length + 1)]
  else []

def printedNames (xname : Text) (printAll : Bool) : List Text → List Text
  | [] => []
  | s :: rest => printedName xname printAll s rest ++ printedNames xname printAll rest

section Loop
variable {xname : Text} {printAll : Bool} {names : List Text}

/-- The first string of what is left of the buffer. -/
theorem stringAt_layout (hnul : ∀ n ∈ names, nul ∉ n) :
    stringAt (names.flatMap (· ++ [nul]) ++ [nul]) = done (names.headD []) := by
  cases names with
  | nil => rfl
  | cons s rest =>
      rw [List.flatMap_cons, List.append_assoc, List.append_assoc, List.singleton_append,
        stringAt_append (hnul s List.mem_cons_self), List.headD_cons]

/-- One name of the listing, with what follows it. -/
theorem printName_layout (hx : nul ∉ xname) {s : Text} {rest : List Text} (hs : nul ∉ s)
    (hnul : ∀ n ∈ rest, nul ∉ n) :
    printName xname printAll (s ++ nul :: (rest.flatMap (· ++ [nul]) ++ [nul])) =
      done (printedName xname printAll s rest) := by
  unfold printName printedName
  cases printAll with
  | true => simp [stringAt_append hs]
  | false =>
      simp only [Bool.false_eq_true, if_false, strncmpEq_append hx, done_bind, decide_eq_true_eq]
      by_cases hpre : xname <+: s
      · obtain ⟨r, rfl⟩ := hpre
        rw [if_pos (List.prefix_append xname r), if_pos (List.prefix_append xname r)]
        cases r with
        | nil =>
            have hdrop : (xname ++ [] ++ nul :: (rest.flatMap (· ++ [nul]) ++ [nul])).drop
                (xname.length + 1) = rest.flatMap (· ++ [nul]) ++ [nul] := by
              simp
            rw [hdrop, stringAt_layout hnul, if_pos (List.append_nil _)]
            rfl
        | cons c r =>
            have hdrop : (xname ++ c :: r ++ nul :: (rest.flatMap (· ++ [nul]) ++ [nul])).drop
                (xname.length + 1) = r ++ nul :: (rest.flatMap (· ++ [nul]) ++ [nul]) := by
              simp
            have hr : nul ∉ r := fun h => hs (by simp [h])
            rw [hdrop, stringAt_append hr, if_neg (by simp)]
            simp
      · rw [if_neg hpre, if_neg hpre]
        rfl

/-- The loop takes one round for each attribute, and one for the zero at the end.  The
count of characters leaves out the NULs, and never gets to the end. -/
theorem printLoop_layout (hx : nul ∉ xname) (hnul : ∀ n ∈ names, nul ∉ n)
    (hne : ∀ n ∈ names, n ≠ []) {len processed : Nat}
    (hlen : processed + (names.flatMap (· ++ [nul])).length ≤ len) (rounds : Nat) :
    printLoop xname printAll len rounds (names.flatMap (· ++ [nul]) ++ [nul]) processed =
      if names.length < rounds then done (printedNames xname printAll names) else hang := by
  induction names generalizing processed rounds with
  | nil =>
      cases rounds with
      | zero => rfl
      | succ rounds =>
          rw [if_pos (by simp)]
          rfl
  | cons s rest ih =>
      cases rounds with
      | zero => rfl
      | succ rounds =>
          obtain ⟨hs, hrest⟩ := List.forall_mem_cons.mp hnul
          obtain ⟨c, t, rfl⟩ := List.exists_cons_of_ne_nil (hne s List.mem_cons_self)
          have hc : c ≠ nul := by
            rintro rfl
            exact hs List.mem_cons_self
          have hbuf : ((c :: t) :: rest).flatMap (· ++ [nul]) ++ [nul] =
              c :: t ++ nul :: (rest.flatMap (· ++ [nul]) ++ [nul]) := by
            simp
          rw [List.flatMap_cons, List.length_append, List.length_append, List.length_singleton] at hlen
          have hmore := @ih hrest (fun n hn => hne n (List.mem_cons_of_mem _ hn))
            (processed + (c :: t).length) (by omega) rounds
          rw [hbuf, printLoop, List.cons_append, load, done_bind, if_neg hc, ← List.cons_append,
            skipString_append hs, done_bind, printName_layout hx hs hrest, done_bind,
            stringAt_append hs, done_bind, List.tail_cons]
          have hleft : ¬ len ≤ processed + (c :: t).length := by omega
          have hcount : ((c :: t) :: rest).length < rounds + 1 ↔ rest.length < rounds :=
            Nat.succ_lt_succ_iff
          simp only [if_neg hleft, hmore, hcount]
          by_cases hrounds : rest.length < rounds
          · rw [if_pos hrounds, if_pos hrounds]
            rfl
          · rw [if_neg hrounds, if_neg hrounds]
            rfl

end Loop

end TagList

/-! ## tags -/

section Tags
variable {tagPrefix x n : Text}

theorem setXname_eq (tagPrefix n : Text) : setXname tagPrefix n = setXname tagPrefix [] ++ n :=
  (List.append_assoc ("user.".toList ++ tagPrefix) [ '.' ] n).symm

/-- The tags of an attribute are the names that it is set under. -/
theorem tagOf_eq_some_iff : tagOf tagPrefix x = some n ↔ n ≠ [] ∧ x = setXname tagPrefix n := by
  rw [setXname_eq, tagOf, Option.ite_none_right_eq_some]
  constructor
  · rintro ⟨⟨⟨r, rfl⟩, hne⟩, hn⟩
    obtain rfl : r = n := by simpa using hn
    exact ⟨fun h => hne (by simp [h]), rfl⟩
  · rintro ⟨hn, rfl⟩
    exact ⟨⟨List.prefix_append _ n, fun h => hn (by simpa using h)⟩, by simp⟩

/-- Behind the prefix, the name is printed without its first character. -/
theorem printedName_append (own : Text) (c : Char) (n : Text) (rest : List Text) :
    TagList.printedName own false (own ++ c :: n) rest = [n] := by
  have hne : own ++ c :: n ≠ own := by simp
  have hdrop : (own ++ c :: n).drop (own.length + 1) = n := by simp
  rw [TagList.printedName, if_neg Bool.false_ne_true, if_pos (List.prefix_append _ _), if_neg hne,
    hdrop]

/-- An attribute of a tag has the prefix, and the tag behind the separator. -/
theorem printedName_of_tagOf {rest : List Text} (h : tagOf tagPrefix x = some n) :
    TagList.printedName ("user.".toList ++ tagPrefix) false x rest = [n] := by
  rw [(tagOf_eq_some_iff.mp h).2]
  exact printedName_append ("user.".toList ++ tagPrefix) '.' n rest

/-- A name is printed at most once. -/
theorem length_printedName {rest : List Text} :
    (TagList.printedName ("user.".toList ++ tagPrefix) false x rest).length =
      if "user.".toList ++ tagPrefix <+: x then 1 else 0 := by
  rw [TagList.printedName, if_neg Bool.false_ne_true]
  split <;> rfl

/-- A name of a tag has the prefix. -/
theorem prefix_of_tagOf (h : (tagOf tagPrefix x).isSome = true) : "user.".toList ++ tagPrefix <+: x := by
  obtain ⟨n, hn⟩ := Option.isSome_iff_exists.mp h
  obtain ⟨-, rfl⟩ := tagOf_eq_some_iff.mp hn
  exact List.prefix_append _ _

/-- There is a line for each attribute with the prefix, so at least one for each tag. -/
theorem length_tags_le (tagPrefix : Text) (names : List Text) :
    (names.filterMap (tagOf tagPrefix)).length ≤
        (TagList.printedNames ("user.".toList ++ tagPrefix) false names).length ∧
      ((names.filterMap (tagOf tagPrefix)).length =
          (TagList.printedNames ("user.".toList ++ tagPrefix) false names).length →
        ∀ x ∈ names, "user.".toList ++ tagPrefix <+: x → (tagOf tagPrefix x).isSome = true) := by
  induction names with
  | nil => exact ⟨le_rfl, fun _ x hx => absurd hx List.not_mem_nil⟩
  | cons x names ih =>
      rw [TagList.printedNames, List.length_append, length_printedName, List.filterMap_cons,
        List.forall_mem_cons]
      cases htag : tagOf tagPrefix x with
      | some n =>
          have hpre := @prefix_of_tagOf tagPrefix x (by rw [htag]; rfl)
          simp only [if_pos hpre, List.length_cons]
          exact ⟨by omega, fun h => ⟨fun _ => rfl, ih.2 (by omega)⟩⟩
      | none =>
          dsimp only
          by_cases hpre : "user.".toList ++ tagPrefix <+: x
          · rw [if_pos hpre]
            exact ⟨by omega, fun h => absurd h (by omega)⟩
          · rw [if_neg hpre, Nat.zero_add]
            exact ⟨ih.1, fun h => ⟨fun h' => absurd h' hpre, ih.2 h⟩⟩

/-- The lines are the tags exactly if nothing else has the prefix. -/
theorem printedNames_eq_iff {names : List Text} :
    TagList.printedNames ("user.".toList ++ tagPrefix) false names = names.filterMap (tagOf tagPrefix) ↔
      ∀ x ∈ names, "user.".toList ++ tagPrefix <+: x → (tagOf tagPrefix x).isSome = true := by
  constructor
  · exact fun h => (length_tags_le tagPrefix names).2 (congrArg List.length h.symm)
  · intro h
    induction names with
    | nil => rfl
    | cons x names ih =>
        obtain ⟨hx, hnames⟩ := List.forall_mem_cons.mp h
        rw [TagList.printedNames, ih hnames, List.filterMap_cons]
        cases htag : tagOf tagPrefix x with
        | some n =>
            rw [printedName_of_tagOf htag]
            rfl
        | none =>
            have hpre : ¬ "user.".toList ++ tagPrefix <+: x := fun hpre => by
              have hsome := hx hpre
              rw [htag] at hsome
              cases hsome
            rw [TagList.printedName, if_neg Bool.false_ne_true, if_neg hpre]
            rfl

/-- With `--all` every name is printed. -/
theorem printedNames_all (xname : Text) (names : List Text) :
    TagList.printedNames xname true names = names := by
  induction names with
  | nil => rfl
  | cons x names ih => rw [TagList.printedNames, ih, TagList.printedName, if_pos rfl]; rfl

end Tags

namespace Listing
variable (q : Listing)

/-- What is printed, if the prefix fits. -/
theorem print_eq (printAll : Bool) (rounds : Nat) :
    q.print printAll rounds =
      if 5 + q.tagPrefix.length < 64 then
        if q.names.length < rounds then
          done (TagList.printedNames ("user.".toList ++ q.tagPrefix) printAll q.names)
        else hang
      else crash := by
  have huser : "user.".toList.length = 5 := by decide +kernel
  have hx : TagList.nul ∉ "user.".toList ++ q.tagPrefix := by
    rw [List.mem_append, not_or]
    exact ⟨by decide +kernel, q.noNul.1⟩
  rw [print, TagList.tagPrintList, TagList.xnameOf, List.length_append, huser]
  split
  · exact TagList.printLoop_layout hx q.noNul.2 q.nonempty (by rw [Nat.zero_add]; rfl) rounds
  · rfl

/-- The listing is printed exactly if the prefix fits its buffer. -/
theorem exists_print_iff (printAll : Bool) (lines : List Text) :
    (∃ rounds, q.print printAll rounds = done lines) ↔ 5 + q.tagPrefix.length < 64 ∧
      TagList.printedNames ("user.".toList ++ q.tagPrefix) printAll q.names = lines := by
  simp only [print_eq]
  constructor
  · rintro ⟨rounds, h⟩
    split at h
    · next hfits =>
        split at h
        · exact ⟨hfits, done.inj h⟩
        · cases h
    · cases h
  · rintro ⟨hfits, rfl⟩
    exact ⟨q.names.length + 1, by rw [if_pos hfits, if_pos (Nat.lt_succ_self _)]⟩

end Listing

/-- **The list of tags** is what was set exactly if the prefix fits its buffer and every
attribute with the prefix is one of a tag. -/
theorem tag_list_iff (q : Listing) :
    q.Printed ↔ 5 + q.tagPrefix.length < 64 ∧ ∀ x ∈ q.names, "user.".toList ++ q.tagPrefix <+: x →
      ∃ n, n ≠ [] ∧ x = setXname q.tagPrefix n := by
  have htag : ∀ x, (tagOf q.tagPrefix x).isSome = true ↔ ∃ n, n ≠ [] ∧ x = setXname q.tagPrefix n :=
    fun x => by simp only [Option.isSome_iff_exists, tagOf_eq_some_iff]
  rw [Listing.Printed, q.exists_print_iff, q.exists_print_iff, printedNames_all, Listing.tags,
    printedNames_eq_iff]
  simp only [htag, and_true]
  exact ⟨fun h => h.1, fun h => ⟨h, h.1⟩⟩

theorem nul_not_mem_other : TagList.nul ∉ [ 'h', 'p' ] ∧
    ∀ n ∈ [[ 'u', 's', 'e', 'r', '.', 'h', 'p', 'x', '.', 'a' ]], TagList.nul ∉ n := by decide

/-- A file with an attribute of another program. -/
def otherListing : Listing where
  tagPrefix := [ 'h', 'p' ]
  names := [[ 'u', 's', 'e', 'r', '.', 'h', 'p', 'x', '.', 'a' ]]
  noNul := nul_not_mem_other
  nonempty := fun _ hn => List.mem_singleton.mp hn ▸ List.cons_ne_nil _ _
  nodup := List.pairwise_singleton _ _

/-- It is listed as a tag. -/
theorem other_attribute_listed : ¬ ∀ q : Listing, q.Printed := by
  intro h
  have hprint := ((otherListing.exists_print_iff false _).mp (h otherListing).1).2
  exact absurd hprint (by decide +kernel)

end Hpssix
