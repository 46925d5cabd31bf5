import Hpssix.CountSearch
import Hpssix.NumericOperands
import Hpssix.ParseDatetime

/-!
# Hpssix.SearchMain

`main` of `hpssix-search` (`utils/hpssix-search/src/hpssix-search.c`), from the options that
`getopt_long` finds to the statement.

The options are kept in variables of the program as they come.  `-d` and `-M` share one, and
so each takes the place of the other; `-T` adds to a list.

* `mainOptions_eq` — what the loop over the options leaves;
* `same_command` — the options can be reordered, and all but the last in each variable
  left out.
-/

namespace Hpssix

open CText Fate Scanf

/-! ## the options -/

/-- An option as `getopt_long` returns it, under its long name; `help` also stands for one that
it does not know. -/
inductive SearchOpt where
  | atime (optarg : Text)
  | ctime (optarg : Text)
  | directoryOnly
  | fileOnly
  | mtime (optarg : Text)
  | tag (optarg : Text)
  | showIno
  | countOnly
  | date (optarg : Text)
  | keyword (optarg : Text)
  | limit (optarg : Text)
  | metadata
  | removed
  | text
  | verbose
  | inode (optarg : Text)
  | mode (optarg : Text)
  | uid (optarg : Text)
  | gid (optarg : Text)
  | size (optarg : Text)
  | name (optarg : Text)
  | path (optarg : Text)
  | help
deriving DecidableEq

/-- The variables that the options set. -/
structure SearchStatics where
  condStr : CondArg → Option Text := fun _ => none
  tagConds : List TagArg := []
  countonly : Bool := false
  removed : Bool := false
  showino : Bool := false
  directoryOnly : Bool := false
  fileOnly : Bool := false
  keyword : Option Text := none
  limit : UInt64 := 0
  verbose : Bool := false
  printMeta : Bool := false
  printText : Bool := false
  name : Option Text := none
  path : Option Text := none

/-- `add_tag_cond`, as `readTagCond`: the name, the expression and what was read in it. -/
def readTagArg (str : Text) : Fate (Option TagArg) := do
  match ← addTagCondStr str with
  | none => pure none
  | some (name, _, parsed) =>
      match parsed.op.bind FattrOp.condOp with
      | none => pure (some ⟨name, parsed.str, none, 0, 0⟩)
      | some op => pure (do
          let val1 ← finite parsed.val1
          let val2 ← finite parsed.val2
          some ⟨name, parsed.str, some op, val1, val2⟩)

theorem readTagCond_eq (str : Text) :
    readTagCond str = Option.map TagArg.cond <$> readTagArg str := by
  unfold readTagCond readTagArg
  cases addTagCondStr str with
  | crash => rfl
  | hang => rfl
  | done parts =>
      cases parts with
      | none => rfl
      | some parts =>
          obtain ⟨name, val, parsed⟩ := parts
          simp only [done_bind]
          cases parsed.op.bind FattrOp.condOp with
          | none => rfl
          | some op =>
              cases finite parsed.val1 <;> cases finite parsed.val2 <;> rfl

namespace SearchStatics

variable (mktime : DateFields → Int64)

/-- `cond_str[a] = …`. -/
def setCond (s : SearchStatics) (a : CondArg) (str : Text) : SearchStatics :=
  { s with condStr := Function.update s.condStr a (some str) }

/-- One turn of the loop over the options; none where the program exits. -/
def option (s : SearchStatics) : SearchOpt → Fate (Option SearchStatics)
  | .atime optarg => pure (some (s.setCond .atime optarg))
  | .ctime optarg => pure (some (s.setCond .ctime optarg))
  | .directoryOnly => pure (some { s with directoryOnly := true })
  | .fileOnly => pure (some { s with fileOnly := true })
  | .mtime optarg => pure (some (s.setCond .mtime optarg))
  | .tag optarg => do
    match ← readTagArg optarg with
    | some t => pure (some { s with tagConds := s.tagConds ++ [t] })
    | none => pure none
  | .showIno => pure (some { s with showino := true })
  | .countOnly => pure (some { s with countonly := true })
  | .date optarg => do
    match ← parseDatetime mktime optarg with
    | some datetimebuf => pure (some (s.setCond .mtime datetimebuf))
    | none => pure none
  | .keyword optarg => pure (some { s with keyword := some optarg })
  | .limit optarg => pure (some { s with limit := .ofNat (strtoull optarg) })
  | .metadata => pure (some { s with printMeta := true })
  | .removed => pure (some { s with removed := true })
  | .text => pure (some { s with printText := true })
  | .verbose => pure (some { s with verbose := true })
  | .inode optarg => pure (some (s.setCond .inode optarg))
  | .mode optarg => pure (some (s.setCond .mode optarg))
  | .uid optarg => pure (some (s.setCond .uid optarg))
  | .gid optarg => pure (some (s.setCond .gid optarg))
  | .size optarg => pure (some (s.setCond .size optarg))
  | .name optarg => pure (some { s with name := some optarg })
  | .path optarg => pure (some { s with path := some optarg })
  | .help => pure none

/-- The loop over the options. -/
def mainOptions (s : SearchStatics) : List SearchOpt → Fate (Option SearchStatics)
  | [] => pure (some s)
  | o :: os => do
    match ← s.option mktime o with
    | some s => mainOptions s os
    | none => pure none

/-! ## the conditions -/

/-- The loop of `fattr_get_sql` over `cond_str`.  `cond` goes on from one condition to the
next. -/
def fattrConds (condStr : CondArg → Option Text) :
    List CondArg → FattrCond → (CondArg → Option FattrCond) → Fate (Option (CondArg → Option FattrCond))
  | [], _, fattr => pure (some fattr)
  | a :: as, cond, fattr =>
    match condStr a with
    | none => fattrConds condStr as cond fattr
    | some str => do
      match ← parseFattrCondition cond str with
      | none => pure none
      | some cond => fattrConds condStr as cond (Function.update fattr a (some cond))

/-- The options of the statement, after `fattr_get_sql` has read the conditions. -/
def args (s : SearchStatics) : Fate (Option SearchArgs) := do
  match ← fattrConds s.condStr CondArg.all { op := .cmp .eq, val1 := 0 } fun _ => none with
  | none => pure none
  | some cond =>
    pure (some {
      fattr := {
        cond
        directoryOnly := s.directoryOnly
        fileOnly := s.fileOnly
        removed := s.removed }
      tags := s.tagConds
      keyword := s.keyword
      countonly := s.countonly
      limit := s.limit
      name := s.name
      path := s.path })

end SearchStatics

/-- `main` up to the statement: its options, and whether inode numbers are printed.  `others` are
the words that are no options; a call without any word is one for help. -/
def searchMain (mktime : DateFields → Int64) (opts : List SearchOpt) (others : List Text) :
    Fate (Option (SearchArgs × Bool)) :=
  if opts = [] ∧ others = [] then pure none
  else do
    match ← SearchStatics.mainOptions mktime {} opts with
    | none => pure none
    | some s => return (← s.args).map fun q => (q, s.showino)

/-! ## what an option sets -/

/-- The variables with one value. -/
inductive SearchVar where
  | cond (a : CondArg)
  | countonly
  | removed
  | showino
  | directoryOnly
  | fileOnly
  | keyword
  | limit
  | verbose
  | printMeta
  | printText
  | name
  | path
deriving DecidableEq

/-- What an option comes to: a text for a variable, empty for a flag, or a condition on a tag. -/
inductive Setting where
  | var (v : SearchVar) (text : Text)
  | tag (t : TagArg)

/-- The setting of an option; none if the program ends there. -/
def SearchOpt.setting (mktime : DateFields → Int64) : SearchOpt → Option Setting
  | .atime optarg => some (.var (.cond .atime) optarg)
  | .ctime optarg => some (.var (.cond .ctime) optarg)
  | .directoryOnly => some (.var .directoryOnly [])
  | .fileOnly => some (.var .fileOnly [])
  | .mtime optarg => some (.var (.cond .mtime) optarg)
  | .tag optarg => (readTagArg optarg).returned.map .tag
  | .showIno => some (.var .showino [])
  | .countOnly => some (.var .countonly [])
  | .date optarg => (parseDatetime mktime optarg).returned.map (.var (.cond .mtime))
  | .keyword optarg => some (.var .keyword optarg)
  | .limit optarg => some (.var .limit optarg)
  | .metadata => some (.var .printMeta [])
  | .removed => some (.var .removed [])
  | .text => some (.var .printText [])
  | .verbose => some (.var .verbose [])
  | .inode optarg => some (.var (.cond .inode) optarg)
  | .mode optarg => some (.var (.cond .mode) optarg)
  | .uid optarg => some (.var (.cond .uid) optarg)
  | .gid optarg => some (.var (.cond .gid) optarg)
  | .size optarg => some (.var (.cond .size) optarg)
  | .name optarg => some (.var .name optarg)
  | .path optarg => some (.var .path optarg)
  | .help => none

section Settings
variable {mktime : DateFields → Int64} {o : SearchOpt} {os : List SearchOpt} {sts : List Setting}

theorem settings_cons (h : (o :: os).mapM (SearchOpt.setting mktime) = some sts) :
    ∃ st sts', o.setting mktime = some st ∧ os.mapM (SearchOpt.setting mktime) = some sts' ∧
      sts = st :: sts' := by
  rw [List.mapM_cons] at h
  obtain ⟨st, hst, h⟩ := Option.bind_eq_some_iff.mp h
  obtain ⟨sts', hsts, h⟩ := Option.bind_eq_some_iff.mp h
  exact ⟨st, sts', hst, hsts, (Option.some.inj h).symm⟩

theorem opts_eq_nil_iff (h : os.mapM (SearchOpt.setting mktime) = some sts) :
    os = [] ↔ sts = [] := by
  cases os with
  | nil => exact iff_of_true rfl (Option.some.inj h).symm
  | cons o os =>
      obtain ⟨st, sts', -, -, rfl⟩ := settings_cons h
      simp

end Settings

/-- The last text for a variable. -/
def lastText (v : SearchVar) : List Setting → Option Text
  | [] => none
  | .var u text :: sts => (lastText v sts).or (if u = v then some text else none)
  | .tag _ :: sts => lastText v sts

/-- The conditions on tags, in order. -/
def settingTags : List Setting → List TagArg
  | [] => []
  | .var _ _ :: sts => settingTags sts
  | .tag t :: sts => t :: settingTags sts

namespace SearchStatics

/-- The variables from the last text for each. -/
def settled (last : SearchVar → Option Text) (tags : List TagArg) : SearchStatics where
  condStr a := last (.cond a)
  tagConds := tags
  countonly := (last .countonly).isSome
  removed := (last .removed).isSome
  showino := (last .showino).isSome
  directoryOnly := (last .directoryOnly).isSome
  fileOnly := (last .fileOnly).isSome
  keyword := last .keyword
  limit := (last .limit).elim 0 fun text => .ofNat (strtoull text)
  verbose := (last .verbose).isSome
  printMeta := (last .printMeta).isSome
  printText := (last .printText).isSome
  name := last .name
  path := last .path

variable {mktime : DateFields → Int64} {last : SearchVar → Option Text} {tags : List TagArg}

theorem settled_setCond (a : CondArg) (text : Text) :
    (settled last tags).setCond a text =
      settled (Function.update last (.cond a) (some text)) tags := by
  have hcond : Function.update (fun b => last (.cond b)) a (some text) =
      fun b => Function.update last (.cond a) (some text) (.cond b) := by
    funext b
    by_cases hb : b = a
    · subst hb
      simp
    · rw [Function.update_of_ne hb, Function.update_of_ne fun h => hb (SearchVar.cond.inj h)]
  simp [setCond, settled, hcond]

/-- An option that sets a variable. -/
theorem option_var {o : SearchOpt} {v : SearchVar} {text : Text}
    (h : o.setting mktime = some (.var v text)) :
    (settled last tags).option mktime o =
      done (some (settled (Function.update last v (some text)) tags)) := by
  cases o with
  | tag optarg =>
      obtain ⟨t, -, ht⟩ := Option.map_eq_some_iff.mp h
      cases ht
  | date optarg =>
      obtain ⟨buf, hbuf, hvar⟩ := Option.map_eq_some_iff.mp h
      obtain ⟨rfl, rfl⟩ := Setting.var.inj hvar
      simp only [option, returned_eq_some.mp hbuf, done_bind, settled_setCond, pure_eq]
  | help => cases h
  | atime optarg | ctime optarg | mtime optarg | inode optarg | mode optarg | uid optarg
  | gid optarg | size optarg =>
      obtain ⟨rfl, rfl⟩ := Setting.var.inj (Option.some.inj h)
      simp only [option, settled_setCond, pure_eq]
  | _ =>
      obtain ⟨rfl, rfl⟩ := Setting.var.inj (Option.some.inj h)
      simp [option, settled]

/-- An option that adds a condition. -/
theorem option_tag {o : SearchOpt} {t : TagArg} (h : o.setting mktime = some (.tag t)) :
    (settled last tags).option mktime o = done (some (settled last (tags ++ [t]))) := by
  cases o with
  | tag optarg =>
      obtain ⟨t', ht, heq⟩ := Option.map_eq_some_iff.mp h
      obtain rfl := Setting.tag.inj heq
      simp only [option, returned_eq_some.mp ht, done_bind, settled, pure_eq]
  | date optarg =>
      obtain ⟨buf, -, hvar⟩ := Option.map_eq_some_iff.mp h
      cases hvar
  | help => cases h
  | _ => cases Option.some.inj h

/-- **What the options leave**: each variable has the last text that was set, and the conditions
stand in their order. -/
theorem mainOptions_settled {os : List SearchOpt} {sts : List Setting}
    (h : os.mapM (SearchOpt.setting mktime) = some sts) :
    mainOptions mktime (settled last tags) os =
      done (some (settled (fun v => (lastText v sts).or (last v)) (tags ++ settingTags sts))) := by
  induction os generalizing sts last tags with
  | nil =>
      obtain rfl : [] = sts := Option.some.inj h
      simp [mainOptions, lastText, settingTags]
  | cons o os ih =>
      obtain ⟨st, sts', hst, hsts, rfl⟩ := settings_cons h
      rw [mainOptions]
      cases st with
      | tag t =>
          rw [option_tag hst, done_bind]
          have hrest : mainOptions mktime (settled last (tags ++ [t])) os = _ := ih hsts
          simpa [lastText, settingTags] using hrest
      | var v text =>
          rw [option_var hst, done_bind]
          have hlast : (fun u => (lastText u sts').or (Function.update last v (some text) u)) =
              fun u => (lastText u (.var v text :: sts')).or (last u) := by
            funext u
            by_cases hu : v = u
            · subst hu
              cases hsome : lastText v sts' <;> simp [lastText, hsome]
            · rw [Function.update_of_ne fun h => hu h.symm, lastText, if_neg hu, Option.or_none]
          exact (ih hsts).trans (by rw [hlast]; rfl)

theorem mainOptions_eq {os : List SearchOpt} {sts : List Setting}
    (h : os.mapM (SearchOpt.setting mktime) = some sts) :
    mainOptions mktime {} os = done (some (settled (lastText · sts) (settingTags sts))) := by
  have hinit : ({} : SearchStatics) = settled (fun _ => none) [] := rfl
  rw [hinit, mainOptions_settled h]
  simp

end SearchStatics

/-! ## commands that come to the same -/

section Same
variable {mktime : DateFields → Int64} {as bs : List SearchOpt} {sa sb : List Setting}

/-- Settings that set nothing. -/
theorem settings_eq_nil (hlast : ∀ v, lastText v sa = none) (htags : settingTags sa = []) :
    sa = [] := by
  cases sa with
  | nil => rfl
  | cons st sts =>
      cases st with
      | tag t => cases htags
      | var v text =>
          have hv := hlast v
          rw [lastText, if_pos rfl, Option.or_eq_none_iff] at hv
          exact absurd hv.2 (Option.some_ne_none text)

/-- **The order of options**: two command lines that set each variable to the same text in the
end, and ask for the same tags in the same order, are the same search. -/
theorem same_command (others : List Text) (ha : as.mapM (SearchOpt.setting mktime) = some sa)
    (hb : bs.mapM (SearchOpt.setting mktime) = some sb) (hlast : ∀ v, lastText v sa = lastText v sb)
    (htags : settingTags sa = settingTags sb) :
    searchMain mktime as others = searchMain mktime bs others := by
  have hnil : as = [] ↔ bs = [] := by
    rw [opts_eq_nil_iff ha, opts_eq_nil_iff hb]
    constructor
    · rintro rfl
      exact settings_eq_nil (fun v => (hlast v).symm) htags.symm
    · rintro rfl
      exact settings_eq_nil hlast htags
  have hsame : SearchStatics.mainOptions mktime {} as = SearchStatics.mainOptions mktime {} bs := by
    rw [SearchStatics.mainOptions_eq ha, SearchStatics.mainOptions_eq hb, funext hlast, htags]
  rw [searchMain, searchMain, hsame]
  simp only [hnil]

/-- `-d` after `-M`, and `-M` with the seconds of the date. -/
theorem same_command_date :
    searchMain (fun _ => 5)
        [.mtime [ '<', '9' ], .name [ 'f' ], .date "20190102-03:04:05".toList, .tag "color:red".toList]
        [] =
      searchMain (fun _ => 5) [.tag "color:red".toList, .mtime [ '5' ], .name [ 'f' ]] [] :=
  have ha : [.mtime [ '<', '9' ], .name [ 'f' ], .date "20190102-03:04:05".toList,
      .tag "color:red".toList].mapM (SearchOpt.setting fun _ => 5) =
      some [.var (.cond .mtime) [ '<', '9' ], .var .name [ 'f' ], .var (.cond .mtime) [ '5' ],
        .tag ⟨"color".toList, "red".toList, none, 0, 0⟩] := by rfl
  have hb : [.tag "color:red".toList, .mtime [ '5' ], .name [ 'f' ]].mapM
      (SearchOpt.setting fun _ => 5) =
      some [.tag ⟨"color".toList, "red".toList, none, 0, 0⟩, .var (.cond .mtime) [ '5' ],
        .var .name [ 'f' ]] := by rfl
  same_command [] ha hb (fun v => by
    cases v with
    | cond a => cases a <;> rfl
    | _ => rfl) rfl

end Same

end Hpssix
