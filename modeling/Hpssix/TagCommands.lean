import Hpssix.Daemon
import Hpssix.TagList
import Hpssix.World

/-!
# Hpssix.TagCommands

What a user sees of the tags: `hpssix-tag set`, `get`, `del` and `list`
(`utils/hpssix-tag/src`) on files in HPSS, one after the other, with anything that HPSS
clients do in between.  Attributes are written by these commands only, and a command whose
attribute name overruns `xname` dies before it has written anything.

* `tagsOk_run` — the attributes of a file are the tags that the commands have set last and not
  removed, whatever else was set, removed or refused, and whatever happened to the file and to
  others;
* `get_prints_tag` and `list_prints_tags` — the commands print them;
* `tagCmdSetFile_eq` and `tagCmdDelFile_eq` — a command that succeeds is an event of the world of
  HPSS and its scanner.
-/

namespace Hpssix

open CText Cursor Fate Forest Lite Rel TagList Trace

namespace TagTool

/-! ## options -/

/-- An argument of the command line. -/
abbrev Arg := { s : Text // nul ∉ s }

inductive Subcommand where
  | set
  | get
  | del
  | list
deriving DecidableEq

/-- An option; one that is not known ends the command like `--help`. -/
inductive TagOption where
  | all
  | dereference
  | name (n : Arg)
  | value (v : Arg)
  | help
deriving DecidableEq

/-- What the options set. -/
structure TagArgs where
  printAll : Bool := false
  name : Option Arg := none
  value : Option Arg := none
deriving DecidableEq

/-- One turn of the loop over the options of a command; `none` where the usage is
printed.  `--dereference` sets its variable to what it was. -/
def readTagOption (cmd : Subcommand) (args : TagArgs) : TagOption → Option TagArgs
  | .all => if cmd = .list then some { args with printAll := true } else none
  | .dereference => some args
  | .name n => if cmd = .list then none else some { args with name := some n }
  | .value v => if cmd = .set then some { args with value := some v } else none
  | .help => none

/-- A call of `hpssix-tag`. -/
structure TagRequest where
  cmd : Subcommand
  options : List TagOption
  operands : List Arg
deriving DecidableEq

/-- What the call meets: whether HPSS is mounted, how `realpath` resolves the operand, which
library calls succeed, and the attributes of the file if it is none of HPSS. -/
structure TagEnv where
  mounted : Bool := true
  realpath : Text → Option Text
  xattrOk : Bool := true
  utimeOk : Bool := true
  allocOk : Bool := true
  elsewhere : Attrs := []

/-- What the call returns and prints, and the metadata afterwards. -/
structure TagResult where
  ret : Int
  printed : List Text
  hpss : Hpss

/-! ## the commands -/

/-- `tag_valid_path`. -/
def tagValidPath (mountpoint filename : Text) : Bool := mountpoint.isPrefixOf filename

/-- The first half of every command: the options, and the file. -/
def tagTarget (mountpoint : Text) (req : TagRequest) (env : TagEnv) : Option (TagArgs × Text) := do
  let args ← req.options.foldlM (readTagOption req.cmd) {}
  match req.operands with
  | [operand] =>
    let filename ← env.realpath operand
    if tagValidPath mountpoint filename then some (args, filename) else none
  | _ => none

/-- The object of a file, if the file is in HPSS. -/
def objectAt (mountpoint filename : Text) (h : Hpss) : Option Oid :=
  h.oids.find? fun o => mountpoint ++ h.currentPath o = filename

/-- `lgetxattr`. -/
def lookup (attrs : Attrs) (name : Text) : Option Text :=
  (attrs.find? fun a => a.1 = name).map Prod.snd

/-- `sprintf(xname, "user.%s.%s", …)` into `xname[64]`. -/
def tagXnameBuf (tagPrefix name : Text) : Fate Text :=
  if (tagXname tagPrefix name).length < 64 then done (tagXname tagPrefix name) else crash

section Commands
variable (site : Site) (mountpoint : Text) (env : TagEnv) (now : Nat) (time : UInt64) (h : Hpss)

/-- The attributes of the file. -/
def fileAttrs (filename : Text) : Attrs :=
  match objectAt mountpoint filename h with
  | some o => h.attrs o
  | none => env.elsewhere

/-- `hpssix_tag_cmd_set_func`: what is returned is the result of `utime`. -/
def tagCmdSetFile (args : TagArgs) (filename : Text) : Fate TagResult :=
  match args.name, args.value with
  | some name, some value => do
    let xname ← tagXnameBuf site.tagPrefix name
    let ret := if env.utimeOk then 0 else -1
    match objectAt mountpoint filename h with
    | some o =>
      let h := if env.xattrOk then h.setxattr o xname value else h
      pure ⟨ret, [], if env.utimeOk then h.touchFileinfo now o time else h⟩
    | none => pure ⟨ret, [], h⟩
  | _, _ => pure ⟨0, [], h⟩

/-- `hpssix_tag_cmd_get_func`. -/
def tagCmdGetFile (args : TagArgs) (filename : Text) : Fate TagResult :=
  match args.name with
  | some name => do
    let xname ← tagXnameBuf site.tagPrefix name
    match lookup (fileAttrs mountpoint env h filename) xname with
    | some value =>
      if env.xattrOk ∧ env.allocOk then pure ⟨0, [cString value], h⟩ else pure ⟨0, [], h⟩
    | none => pure ⟨0, [], h⟩
  | none => pure ⟨0, [], h⟩

/-- `hpssix_tag_cmd_del_func`. -/
def tagCmdDelFile (args : TagArgs) (filename : Text) : Fate TagResult :=
  match args.name with
  | some name => do
    let xname ← tagXnameBuf site.tagPrefix name
    if env.xattrOk ∧ (lookup (fileAttrs mountpoint env h filename) xname).isSome then
      match objectAt mountpoint filename h with
      | some o => pure ⟨0, [], h.removexattr o xname⟩
      | none => pure ⟨0, [], h⟩
    else pure ⟨-1, [], h⟩
  | none => pure ⟨0, [], h⟩

/-- `hpssix_tag_cmd_list_func`: the names are in the buffer one behind the other. -/
def tagCmdListFile (args : TagArgs) (filename : Text) : Fate TagResult := do
  let bytes := (fileAttrs mountpoint env h filename).flatMap fun a => a.1 ++ [nul]
  if env.xattrOk ∧ env.allocOk then
    let printed ← tagPrintList site.tagPrefix (bytes ++ [nul]) bytes.length args.printAll
      (bytes.length + 1)
    pure ⟨0, printed, h⟩
  else pure ⟨0, [], h⟩

/-- `hpssix-tag`. -/
def hpssixTag (req : TagRequest) : Fate TagResult :=
  if !env.mounted then done ⟨errInval, [], h⟩
  else
    match tagTarget mountpoint req env with
    | none => done ⟨0, [], h⟩
    | some (args, filename) =>
      match req.cmd with
      | .set => tagCmdSetFile site mountpoint env now time h args filename
      | .get => tagCmdGetFile site mountpoint env h args filename
      | .del => tagCmdDelFile site mountpoint env h args filename
      | .list => tagCmdListFile site mountpoint env h args filename

end Commands

/-! ## the events of the world -/

section World
variable {site : Site} {mountpoint filename : Text} {env : TagEnv} {h : Hpss} {args : TagArgs}
  {o : Oid} {name : Arg}

/-- `hpssix-tag set` on a file in HPSS, where every library call succeeds. -/
theorem tagCmdSetFile_eq {value : Arg} (hname : args.name = some name)
    (hvalue : args.value = some value) (hobj : objectAt mountpoint filename h = some o)
    (hfits : (tagXname site.tagPrefix name).length < 64) (hx : env.xattrOk = true)
    (hu : env.utimeOk = true) (now : Nat) (time : UInt64) :
    tagCmdSetFile site mountpoint env now time h args filename =
      done ⟨0, [], tagCmdSet site now time o name value h⟩ := by
  simp [tagCmdSetFile, hname, hvalue, tagXnameBuf, hfits, hobj, hx, hu, tagCmdSet]

/-- `hpssix-tag del` on a file in HPSS that has the tag. -/
theorem tagCmdDelFile_eq (hname : args.name = some name)
    (hobj : objectAt mountpoint filename h = some o)
    (hfits : (tagXname site.tagPrefix name).length < 64) (hx : env.xattrOk = true)
    (hthere : (lookup (h.attrs o) (tagXname site.tagPrefix name)).isSome = true) :
    tagCmdDelFile site mountpoint env h args filename =
      done ⟨0, [], tagCmdDel site o name h⟩ := by
  simp [tagCmdDelFile, hname, tagXnameBuf, hfits, fileAttrs, hobj, hx, hthere, tagCmdDel]

end World

/-! ## the tags of a run -/

/-- What happens to the files: an operation of a client, or a tag command. -/
inductive Event where
  | op (now : Nat) (op : HpssOp)
  | tag (now : Nat) (time : UInt64) (req : TagRequest) (env : TagEnv)

/-- A tag that is set, or removed. -/
structure TagEffect where
  objid : Oid
  name : Arg
  value : Option Arg

/-- The tags of the objects, as their users think of them. -/
abbrev Tags := Oid → Arg → Option Arg

def TagEffect.apply (tags : Tags) (f : TagEffect) : Tags := fun o n =>
  if o = f.objid ∧ n = f.name then f.value else tags o n

theorem TagEffect.apply_self (tags : Tags) (f : TagEffect) : f.apply tags f.objid f.name = f.value :=
  if_pos ⟨rfl, rfl⟩

theorem TagEffect.apply_of_ne {tags : Tags} {f : TagEffect} {o : Oid} {n : Arg}
    (h : ¬ (o = f.objid ∧ n = f.name)) : f.apply tags o n = tags o n := if_neg h

/-- The tags after an effect, if there is one. -/
def applyEffect (tags : Tags) (f : Option TagEffect) : Tags := f.elim tags (TagEffect.apply tags)

@[simp] theorem applyEffect_none (tags : Tags) : applyEffect tags none = tags := rfl

@[simp] theorem applyEffect_some (tags : Tags) (f : TagEffect) :
    applyEffect tags (some f) = f.apply tags := rfl

section Runs
variable (site : Site) (mountpoint : Text)

/-- The tag that a command sets or removes on a file. -/
def fileEffect (cmd : Subcommand) (env : TagEnv) (h : Hpss) (args : TagArgs) (filename : Text) :
    Option TagEffect :=
  match objectAt mountpoint filename h, args.name with
  | some o, some name =>
    if env.xattrOk ∧ (tagXname site.tagPrefix name).length < 64 then
      match cmd, args.value with
      | .set, some value => some ⟨o, name, some value⟩
      | .del, _ => some ⟨o, name, none⟩
      | _, _ => none
    else none
  | _, _ => none

/-- The tag that a call sets or removes. -/
def tagEffect (req : TagRequest) (env : TagEnv) (h : Hpss) : Option TagEffect :=
  if env.mounted then
    (tagTarget mountpoint req env).bind fun (args, filename) =>
      fileEffect site mountpoint req.cmd env h args filename
  else none

/-- HPSS, and the tags. -/
structure Tagged where
  hpss : Hpss := {}
  tags : Tags := fun _ _ => none

/-- A command that dies leaves the metadata as they are: it dies before it changes them. -/
def hpssAfter (h : Hpss) : Fate TagResult → Hpss
  | done r => r.hpss
  | _ => h

def Tagged.step (s : Tagged) : Event → Tagged
  | .op now op => { s with hpss := hpssStep now op s.hpss }
  | .tag now time req env =>
    { hpss := hpssAfter s.hpss (hpssixTag site mountpoint env now time s.hpss req)
      tags := applyEffect s.tags (tagEffect site mountpoint req env s.hpss) }

end Runs

/-! ## what a command changes -/

section Change
variable {site : Site} {mountpoint : Text}

/-- The metadata and the tags after a step: an operation, nothing that concerns attributes, one
attribute set, or one removed. -/
inductive Change (site : Site) (s : Tagged) : Tagged → Prop
  | op (now : Nat) (op : HpssOp) : Change site s { s with hpss := hpssStep now op s.hpss }
  | keeps (h : Hpss) (hattrs : ∀ x, h.attrs x = s.hpss.attrs x) (ho : h.oids = s.hpss.oids)
      (hh : h.histOids = s.hpss.histOids) : Change site s { s with hpss := h }
  | sets (h : Hpss) (o : Oid) (n v : Arg) (hobj : o ∈ s.hpss.oids)
      (hattrs : ∀ x, h.attrs x = (s.hpss.setxattr o (tagXname site.tagPrefix n) v).attrs x)
      (ho : h.oids = s.hpss.oids) (hh : h.histOids = s.hpss.histOids) :
      Change site s ⟨h, TagEffect.apply s.tags ⟨o, n, some v⟩⟩
  | removes (h : Hpss) (o : Oid) (n : Arg)
      (hattrs : ∀ x, h.attrs x = (s.hpss.removexattr o (tagXname site.tagPrefix n)).attrs x)
      (ho : h.oids = s.hpss.oids) (hh : h.histOids = s.hpss.histOids) :
      Change site s ⟨h, TagEffect.apply s.tags ⟨o, n, none⟩⟩

/-- A file's times have nothing to do with its attributes. -/
theorem attrs_touchFileinfo (now : Nat) (o : Oid) (time : UInt64) (h : Hpss) (x : Oid) :
    (h.touchFileinfo now o time).attrs x = h.attrs x :=
  Hpss.attrs_eq_of_uxattrs (uxattrs_touchFileinfo now o time h)

/-- Setting an attribute puts it behind the others. -/
theorem attrs_setxattr_self {h : Hpss} {o : Oid} (ho : o ∈ h.oids) (name val : Text) :
    (h.setxattr o name val).attrs o = (h.attrs o).filter (fun a => a.1 ≠ name) ++ [(name, val)] := by
  rw [Hpss.setxattr, if_pos ho, Hpss.attrs, List.find?_append, find?_delete_self Prod.fst]
  simp

/-- Removing an attribute leaves the others. -/
theorem attrs_removexattr_self (h : Hpss) (o : Oid) (name : Text) :
    (h.removexattr o name).attrs o = (h.attrs o).filter fun a => a.1 ≠ name := by
  have hkey : ∀ u : Oid × Attrs,
      (if u.1 = o then (u.1, u.2.filter fun a => a.1 ≠ name) else u).1 = u.1 := fun u => by
    split <;> rfl
  simp only [Hpss.attrs, Hpss.removexattr, List.find?_map, Function.comp_def, hkey]
  cases hf : h.uxattrs.find? fun u => u.1 = o with
  | none => rfl
  | some u =>
      have hu : u.1 = o := by simpa using List.find?_some hf
      simp [hu]

/-- An attribute that is not there cannot be removed. -/
theorem attrs_removexattr_of_lookup {h : Hpss} {o : Oid} {name : Text}
    (hnone : lookup (h.attrs o) name = none) (x : Oid) :
    (h.removexattr o name).attrs x = h.attrs x := by
  by_cases hx : x = o
  · subst hx
    refine attrs_removexattr (.inr fun hmem => ?_)
    obtain ⟨a, ha, rfl⟩ := List.mem_map.mp hmem
    have hfind : (h.attrs x).find? (fun b => b.1 = a.1) = none := by simpa [lookup] using hnone
    have hne := List.find?_eq_none.mp hfind a ha
    simp at hne
  · exact attrs_removexattr (.inl hx)

/-- Touching a file's times neither makes nor removes an object. -/
theorem oids_touchFileinfo (now : Nat) (o : Oid) (time : UInt64) (h : Hpss) :
    (h.touchFileinfo now o time).oids = h.oids ∧
      (h.touchFileinfo now o time).histOids = h.histOids := by
  obtain ⟨ht, hh⟩ := touchFileinfo_objecttable now o time h
  exact ⟨by rw [Hpss.oids, ht]; rfl, by rw [Hpss.histOids, hh]; rfl⟩

/-- Nor does setting an attribute. -/
theorem oids_setxattr (o : Oid) (name val : Text) (h : Hpss) :
    (h.setxattr o name val).oids = h.oids ∧ (h.setxattr o name val).histOids = h.histOids := by
  unfold Hpss.setxattr
  split <;> exact ⟨rfl, rfl⟩

theorem mem_of_objectAt {filename : Text} {h : Hpss} {o : Oid}
    (ho : objectAt mountpoint filename h = some o) : o ∈ h.oids := List.mem_of_find?_eq_some ho

variable {env : TagEnv} {now : Nat} {time : UInt64} {s : Tagged} {args : TagArgs} {filename : Text}

/-- `get` is a change of the run. -/
theorem change_get : Change site s
    { s with hpss := hpssAfter s.hpss (tagCmdGetFile site mountpoint env s.hpss args filename) } := by
  have hsame : hpssAfter s.hpss (tagCmdGetFile site mountpoint env s.hpss args filename) = s.hpss := by
    unfold tagCmdGetFile tagXnameBuf
    split
    · split
      · rw [done_bind]
        split
        · split <;> rfl
        · rfl
      · rfl
    · rfl
  rw [hsame]
  exact .keeps s.hpss (fun _ => rfl) rfl rfl

/-- `list` is a change of the run. -/
theorem change_list : Change site s
    { s with hpss := hpssAfter s.hpss (tagCmdListFile site mountpoint env s.hpss args filename) } := by
  have hsame : hpssAfter s.hpss (tagCmdListFile site mountpoint env s.hpss args filename) = s.hpss := by
    unfold tagCmdListFile
    simp only
    split
    · generalize tagPrintList _ _ _ _ _ = printed
      cases printed <;> rfl
    · rfl
  rw [hsame]
  exact .keeps s.hpss (fun _ => rfl) rfl rfl

/-- `set` is a change of the run, with the tag that it writes. -/
theorem change_set : Change site s
    ⟨hpssAfter s.hpss (tagCmdSetFile site mountpoint env now time s.hpss args filename),
      applyEffect s.tags (fileEffect site mountpoint .set env s.hpss args filename)⟩ := by
  have hkeep : Change site s { s with hpss := s.hpss } := .keeps s.hpss (fun _ => rfl) rfl rfl
  cases hname : args.name with
  | none =>
      have heffect : fileEffect site mountpoint .set env s.hpss args filename = none := by
        rw [fileEffect, hname]
        cases objectAt mountpoint filename s.hpss <;> rfl
      rw [tagCmdSetFile, hname, heffect]
      exact hkeep
  | some name =>
      cases hvalue : args.value with
      | none =>
          have heffect : fileEffect site mountpoint .set env s.hpss args filename = none := by
            rw [fileEffect, hname, hvalue]
            cases objectAt mountpoint filename s.hpss with
            | none => rfl
            | some o => exact ite_self _
          rw [tagCmdSetFile, hname, hvalue, heffect]
          exact hkeep
      | some value =>
          simp only [tagCmdSetFile, fileEffect, hname, hvalue, tagXnameBuf]
          by_cases hfits : (tagXname site.tagPrefix name).length < 64
          · cases hobj : objectAt mountpoint filename s.hpss with
            | none => simpa [hfits, hpssAfter] using hkeep
            | some o =>
                have hmem := mem_of_objectAt hobj
                obtain ⟨ho, hh⟩ := oids_setxattr o (tagXname site.tagPrefix name) value s.hpss
                have htouch : ∀ h : Hpss, ∀ x,
                    (if env.utimeOk then h.touchFileinfo now o time else h).attrs x = h.attrs x :=
                  fun h x => by
                    split
                    · exact attrs_touchFileinfo now o time h x
                    · rfl
                have hoids : ∀ h : Hpss,
                    (if env.utimeOk then h.touchFileinfo now o time else h).oids = h.oids ∧
                      (if env.utimeOk then h.touchFileinfo now o time else h).histOids =
                        h.histOids := fun h => by
                    split
                    · exact oids_touchFileinfo now o time h
                    · exact ⟨rfl, rfl⟩
                cases hx : env.xattrOk with
                | true =>
                    simp only [hfits, if_true, done_bind, and_self]
                    exact .sets _ o name value hmem (htouch _) ((hoids _).1.trans ho)
                      ((hoids _).2.trans hh)
                | false =>
                    simp only [hfits, if_true, done_bind, Bool.false_eq_true, if_false, false_and]
                    exact .keeps _ (htouch _) (hoids _).1 (hoids _).2
          · cases hobj : objectAt mountpoint filename s.hpss with
            | none => simpa [hfits, hpssAfter] using hkeep
            | some o => simpa [hfits, hpssAfter] using hkeep

/-- `del` is a change of the run, with the tag that it removes. -/
theorem change_del : Change site s
    ⟨hpssAfter s.hpss (tagCmdDelFile site mountpoint env s.hpss args filename),
      applyEffect s.tags (fileEffect site mountpoint .del env s.hpss args filename)⟩ := by
  have hkeep : Change site s { s with hpss := s.hpss } := .keeps s.hpss (fun _ => rfl) rfl rfl
  cases hname : args.name with
  | none =>
      have heffect : fileEffect site mountpoint .del env s.hpss args filename = none := by
        rw [fileEffect, hname]
        cases objectAt mountpoint filename s.hpss <;> rfl
      rw [tagCmdDelFile, hname, heffect]
      exact hkeep
  | some name =>
      cases hobj : objectAt mountpoint filename s.hpss with
      | none =>
          simp only [tagCmdDelFile, fileEffect, hname, tagXnameBuf, fileAttrs, hobj]
          by_cases hfits : (tagXname site.tagPrefix name).length < 64
          · simp only [hfits, if_true, done_bind]
            split <;> exact hkeep
          · simpa [hfits, hpssAfter] using hkeep
      | some o =>
          simp only [tagCmdDelFile, fileEffect, hname, tagXnameBuf, fileAttrs, hobj]
          by_cases hfits : (tagXname site.tagPrefix name).length < 64
          · cases hx : env.xattrOk with
            | false => simpa [hfits, hpssAfter] using hkeep
            | true =>
                simp only [hfits, if_true, done_bind, and_self, true_and]
                by_cases hlook : (lookup (s.hpss.attrs o) (tagXname site.tagPrefix name)).isSome
                · rw [if_pos hlook]
                  exact .removes _ o name (fun _ => rfl) rfl rfl
                · rw [if_neg hlook]
                  exact .removes _ o name (fun x => (attrs_removexattr_of_lookup
                    (Option.not_isSome_iff_eq_none.mp hlook) x).symm) rfl rfl
          · simpa [hfits, hpssAfter] using hkeep

/-- Only `set` and `del` have an effect on the tags. -/
theorem fileEffect_of_ne {cmd : Subcommand} (hset : cmd ≠ .set) (hdel : cmd ≠ .del) (h : Hpss) :
    fileEffect site mountpoint cmd env h args filename = none := by
  unfold fileEffect
  split
  · split
    · split
      · exact absurd rfl hset
      · exact absurd rfl hdel
      · rfl
    · rfl
  · rfl

/-- An event of the run is one of the changes. -/
theorem change (s : Tagged) (e : Event) : Change site s (s.step site mountpoint e) := by
  have hkeep : Change site s { s with hpss := s.hpss } := .keeps s.hpss (fun _ => rfl) rfl rfl
  cases e with
  | op now op => exact .op now op
  | tag now time req env =>
      simp only [Tagged.step, hpssixTag, tagEffect]
      cases hm : env.mounted with
      | false => exact hkeep
      | true =>
          simp only [Bool.not_true, Bool.false_eq_true, if_false, if_true]
          cases ht : tagTarget mountpoint req env with
          | none => exact hkeep
          | some target =>
              obtain ⟨args, filename⟩ := target
              simp only [Option.bind_some]
              cases hcmd : req.cmd with
              | set => exact change_set
              | get =>
                  rw [fileEffect_of_ne (by decide) (by decide)]
                  exact change_get
              | del => exact change_del
              | list =>
                  rw [fileEffect_of_ne (by decide) (by decide)]
                  exact change_list

end Change

/-! ## the attributes are the tags -/

section Lookup
variable {attrs : Attrs} {k k' v : Text}

/-- A removed attribute is not found. -/
theorem lookup_filter_self : lookup (attrs.filter fun a => a.1 ≠ k) k = none := by
  rw [lookup, find?_delete_self Prod.fst]
  rfl

/-- The others are found as before. -/
theorem lookup_filter_of_ne (h : k' ≠ k) :
    lookup (attrs.filter fun a => a.1 ≠ k) k' = lookup attrs k' := by
  rw [lookup, lookup, find?_delete_of_ne Prod.fst h]

/-- An attribute that is set is found. -/
theorem lookup_set_self : lookup (attrs.filter (fun a => a.1 ≠ k) ++ [(k, v)]) k = some v := by
  have hnone := @lookup_filter_self attrs k
  rw [lookup, Option.map_eq_none_iff] at hnone
  rw [lookup, List.find?_append, hnone]
  simp

/-- The others are found as before. -/
theorem lookup_set_of_ne (h : k' ≠ k) :
    lookup (attrs.filter (fun a => a.1 ≠ k) ++ [(k, v)]) k' = lookup attrs k' := by
  have hlast : ([(k, v)] : Attrs).find? (fun a => a.1 = k') = none := by simpa using h.symm
  rw [lookup, List.find?_append, hlast, Option.or_none]
  exact lookup_filter_of_ne h

end Lookup

/-- The names of attributes tell the tags apart. -/
theorem tagXname_inj {tagPrefix n n' : Text} : tagXname tagPrefix n = tagXname tagPrefix n' ↔ n = n' := by
  simp [tagXname]

/-- The attributes of an object that is there are its tags; an object that is not there has no
attributes, and no tags before it has been there. -/
structure TagsOk (site : Site) (o : Oid) (s : Tagged) : Prop where
  gone : o ∉ s.hpss.oids → s.hpss.attrs o = []
  fresh : o ∉ s.hpss.oids → o ∉ s.hpss.histOids → ∀ n, s.tags o n = none
  nodup : ((s.hpss.attrs o).map Prod.fst).Nodup
  own : ∀ a ∈ s.hpss.attrs o, ∃ n : Arg, a.1 = tagXname site.tagPrefix n
  tags : o ∈ s.hpss.oids → ∀ n : Arg,
    lookup (s.hpss.attrs o) (tagXname site.tagPrefix n) = (s.tags o n).map Subtype.val

/-- In an empty system there are no tags. -/
theorem tagsOk_init (site : Site) (o : Oid) : TagsOk site o {} where
  gone _ := rfl
  fresh _ _ _ := rfl
  nodup := List.nodup_nil
  own _ ha := absurd ha List.not_mem_nil
  tags ho := absurd ho List.not_mem_nil

/-- The attributes of an object go with it. -/
theorem attrs_hpssStep_of_notMem {now : Nat} {op : HpssOp} {h : Hpss} {o : Oid}
    (ho : o ∉ (hpssStep now op h).oids) (hgone : o ∉ h.oids → h.attrs o = []) :
    (hpssStep now op h).attrs o = [] := by
  -- only a deletion takes the object away
  have hkeep : ∀ {h' : Hpss}, h'.uxattrs = h.uxattrs → (o ∈ h.oids → o ∈ h'.oids) → o ∉ h'.oids →
      h'.attrs o = [] := fun hu hoids ho' => by
    rw [Hpss.attrs_eq_of_uxattrs hu]
    exact hgone fun hmem => ho' (hoids hmem)
  have hreplace : ∀ {g : ObjRow → ObjRow} {x : Oid}, (∀ r, (g r).objid = r.objid) →
      o ∈ h.oids → o ∈ (h.replaceRow now x g).oids := fun hg hmem => by
    rw [Hpss.oids, Hpss.replaceRow, map_id_updateRow hg]
    exact hmem
  cases op with
  | create r info =>
      rw [hpssStep] at ho ⊢
      split at ho
      · next hc =>
          rw [if_pos hc]
          refine hkeep rfl (fun hmem => ?_) ho
          rw [Hpss.oids, List.map_append]
          exact List.mem_append_left _ hmem
      · next hc =>
          rw [if_neg hc]
          exact hgone ho
  | delete d =>
      rw [hpssStep] at ho ⊢
      split at ho
      · next hd =>
          rw [if_pos hd]
          by_cases hod : o = d
          · subst hod
            rw [Hpss.attrs, find?_delete_self Prod.fst]
          · have hmem : o ∉ h.oids := fun hmem => ho <| by
              obtain ⟨r, hr, hro⟩ := List.mem_map.mp hmem
              refine List.mem_map.mpr ⟨r, List.mem_filter.mpr ⟨hr, ?_⟩, hro⟩
              simpa [hro] using hod
            rw [Hpss.attrs, find?_delete_of_ne Prod.fst hod]
            exact hgone hmem
      · next hd =>
          rw [if_neg hd]
          exact hgone ho
  | rename x p name =>
      rw [hpssStep] at ho ⊢
      split at ho
      · next hr =>
          rw [if_pos hr]
          exact hkeep rfl (hreplace fun _ => rfl) ho
      · next hr =>
          rw [if_neg hr]
          exact hgone ho
  | chattr x u g w uid gid =>
      rw [hpssStep] at ho ⊢
      split at ho
      · next hx =>
          rw [if_pos hx]
          exact hkeep rfl (hreplace fun _ => rfl) ho
      · next hx =>
          rw [if_neg hx]
          exact hgone ho
  | utime x time =>
      have hoids : (hpssStep now (.utime x time) h).oids = h.oids := (oids_touchFileinfo now x time h).1
      exact hkeep (uxattrs_touchFileinfo now x time h) (fun hmem => hoids ▸ hmem) ho

/-- What does not concern the object. -/
theorem TagsOk.congr {site : Site} {o : Oid} {s s' : Tagged} (h : TagsOk site o s)
    (hattrs : s'.hpss.attrs o = s.hpss.attrs o) (ho : s'.hpss.oids = s.hpss.oids)
    (hh : s'.hpss.histOids = s.hpss.histOids) (htags : ∀ n, s'.tags o n = s.tags o n) :
    TagsOk site o s' where
  gone hno := by
    rw [hattrs]
    exact h.gone (ho ▸ hno)
  fresh hno hhist n := (htags n).trans (h.fresh (ho ▸ hno) (hh ▸ hhist) n)
  nodup := by
    rw [hattrs]
    exact h.nodup
  own := by
    rw [hattrs]
    exact h.own
  tags hmem n := by
    rw [hattrs, htags]
    exact h.tags (ho ▸ hmem) n

/-- An operation of a client keeps the tags of the files that stay. -/
theorem tagsOk_op {site : Site} {o : Oid} {s : Tagged} (h : TagsOk site o s) (now : Nat)
    (op : HpssOp) : TagsOk site o { s with hpss := hpssStep now op s.hpss } := by
  have hedit := tableEdit_hpssStep now op s.hpss
  by_cases ho : o ∈ (hpssStep now op s.hpss).oids
  · have hattrs : (hpssStep now op s.hpss).attrs o = s.hpss.attrs o := attrs_hpssStep ho
    refine ⟨fun hno => absurd ho hno, fun hno => absurd ho hno, ?_, ?_, fun _ n => ?_⟩
    · rw [hattrs]
      exact h.nodup
    · rw [hattrs]
      exact h.own
    · rw [hattrs]
      by_cases hold : o ∈ s.hpss.oids
      · exact h.tags hold n
      · -- a new object: its id was never given out before
        have hnew := (hedit.appears ho).resolve_left hold
        rw [h.gone hold, h.fresh hold hnew n]
        rfl
  · have hattrs := attrs_hpssStep_of_notMem ho h.gone
    refine ⟨fun _ => hattrs, fun _ hhist n => ?_, ?_, ?_, fun hmem => absurd hmem ho⟩
    · have hnever : ¬ (o ∈ s.hpss.oids ∨ o ∈ s.hpss.histOids) := fun hwas =>
        (hedit.remembers hwas).elim ho hhist
      exact h.fresh (fun hmem => hnever (.inl hmem)) (fun hmem => hnever (.inr hmem)) n
    · rw [hattrs]
      exact List.nodup_nil
    · rw [hattrs]
      exact fun a ha => absurd ha List.not_mem_nil

theorem tagXname_ne {site : Site} {m n : Arg} (h : m ≠ n) :
    tagXname site.tagPrefix m ≠ tagXname site.tagPrefix n := fun heq =>
  h (Subtype.ext (tagXname_inj.mp heq))

/-- So does a change, with its own effect. -/
theorem tagsOk_change {site : Site} {o : Oid} {s s' : Tagged} (h : TagsOk site o s)
    (hc : Change site s s') : TagsOk site o s' := by
  cases hc with
  | op now op => exact tagsOk_op h now op
  | keeps h' hattrs ho hh => exact h.congr (hattrs o) ho hh fun _ => rfl
  | sets h' x n v hobj hattrs ho hh =>
      by_cases hx : o = x
      · subst hx
        have hset : h'.attrs o = (s.hpss.attrs o).filter
            (fun a => a.1 ≠ tagXname site.tagPrefix n) ++ [(tagXname site.tagPrefix n, v.val)] :=
          (hattrs o).trans (attrs_setxattr_self hobj _ _)
        refine ⟨fun hno => absurd hobj (ho ▸ hno), fun hno => absurd hobj (ho ▸ hno), ?_,
          fun a ha => ?_, fun _ m => ?_⟩
        · rw [hset, List.map_append]
          refine List.nodup_append.mpr
            ⟨h.nodup.sublist (List.filter_sublist.map _), List.nodup_singleton _, ?_⟩
          simp
        · rw [hset, List.mem_append, List.mem_singleton] at ha
          obtain ha | rfl := ha
          · exact h.own a (List.mem_filter.mp ha).1
          · exact ⟨n, rfl⟩
        · show lookup (h'.attrs o) _ = (TagEffect.apply s.tags ⟨o, n, some v⟩ o m).map Subtype.val
          rw [hset]
          by_cases hm : m = n
          · subst hm
            rw [lookup_set_self, TagEffect.apply_self s.tags ⟨o, m, some v⟩]
            rfl
          · rw [lookup_set_of_ne (tagXname_ne hm), TagEffect.apply_of_ne fun heq => hm heq.2]
            exact h.tags hobj m
      · exact h.congr ((hattrs o).trans (attrs_setxattr_of_ne hx)) ho hh fun m =>
          TagEffect.apply_of_ne fun heq => hx heq.1
  | removes h' x n hattrs ho hh =>
      by_cases hx : o = x
      · subst hx
        have hset : h'.attrs o = (s.hpss.attrs o).filter
            fun a => a.1 ≠ tagXname site.tagPrefix n := (hattrs o).trans (attrs_removexattr_self ..)
        refine ⟨fun hno => ?_, fun hno hhist m => ?_, ?_, fun a ha => ?_, fun hmem m => ?_⟩
        · rw [hset, h.gone (ho ▸ hno)]
          rfl
        · by_cases hm : m = n
          · subst hm
            exact TagEffect.apply_self s.tags ⟨o, m, none⟩
          · exact (TagEffect.apply_of_ne fun heq => hm heq.2).trans
              (h.fresh (ho ▸ hno) (hh ▸ hhist) m)
        · rw [hset]
          exact h.nodup.sublist (List.filter_sublist.map _)
        · rw [hset] at ha
          exact h.own a (List.mem_filter.mp ha).1
        · show lookup (h'.attrs o) _ = (TagEffect.apply s.tags ⟨o, n, none⟩ o m).map Subtype.val
          rw [hset]
          by_cases hm : m = n
          · subst hm
            rw [lookup_filter_self, TagEffect.apply_self s.tags ⟨o, m, none⟩]
            rfl
          · rw [lookup_filter_of_ne (tagXname_ne hm), TagEffect.apply_of_ne fun heq => hm heq.2]
            exact h.tags (ho ▸ hmem) m
      · exact h.congr ((hattrs o).trans (attrs_removexattr (.inl hx))) ho hh fun m =>
          TagEffect.apply_of_ne fun heq => hx heq.1

section Runs
variable (site : Site) (mountpoint : Text)

/-- In every run the attributes of a file are the tags that the commands have left. -/
theorem tagsOk_run (o : Oid) (es : List Event) :
    TagsOk site o (run (Tagged.step site mountpoint) {} es) :=
  invariant_run_all es (tagsOk_init site o) fun s e h => tagsOk_change h (change s e)

/-- **`hpssix-tag get`** prints the tag: after every run of commands and operations, what was
set last on the file and not removed since. -/
theorem get_prints_tag (es : List Event) {req : TagRequest} {env : TagEnv} {args : TagArgs}
    {filename : Text} {o : Oid} {n : Arg} (hcmd : req.cmd = .get) (hmounted : env.mounted = true)
    (htarget : tagTarget mountpoint req env = some (args, filename)) (hname : args.name = some n)
    (hobj : objectAt mountpoint filename (run (Tagged.step site mountpoint) {} es).hpss = some o)
    (hfits : (tagXname site.tagPrefix n).length < 64) (hok : env.xattrOk = true ∧ env.allocOk = true)
    (now : Nat) (time : UInt64) :
    let s := run (Tagged.step site mountpoint) {} es
    hpssixTag site mountpoint env now time s.hpss req =
      done ⟨0, ((s.tags o n).map Subtype.val).toList, s.hpss⟩ := by
  intro s
  have hlook := (tagsOk_run site mountpoint o es).tags (mem_of_objectAt hobj) n
  have hattrs : fileAttrs mountpoint env s.hpss filename = s.hpss.attrs o := by
    rw [fileAttrs, hobj]
  simp only [hpssixTag, hmounted, Bool.not_true, Bool.false_eq_true, if_false, htarget, hcmd,
    tagCmdGetFile, hname, tagXnameBuf, if_pos hfits, done_bind, hattrs]
  rw [hlook]
  cases htag : (run (Tagged.step site mountpoint) {} es).tags o n with
  | none => rfl
  | some v =>
      simp only [Option.map_some, if_pos hok, cString_eq_self v.2]
      rfl

end Runs

section List
variable {site : Site}

theorem setXname_eq_tagXname (tagPrefix n : Text) : setXname tagPrefix n = tagXname tagPrefix n := by
  simp [setXname, tagXname]

/-- The name of the tag, behind the prefix. -/
def tagName (tagPrefix xname : Text) : Text := xname.drop (tagXname tagPrefix []).length

@[simp] theorem tagName_tagXname (tagPrefix n : Text) : tagName tagPrefix (tagXname tagPrefix n) = n := by
  have h : tagXname tagPrefix n = tagXname tagPrefix [] ++ n := by simp [tagXname]
  rw [tagName, h, List.drop_left]

/-- Attributes of tags are printed as the tags. -/
theorem printedNames_tags {tagPrefix : Text} {names : List Text}
    (h : ∀ x ∈ names, ∃ n, x = tagXname tagPrefix n) :
    printedNames ("user.".toList ++ tagPrefix) false names = names.map (tagName tagPrefix) := by
  induction names with
  | nil => rfl
  | cons x names ih =>
      obtain ⟨⟨n, rfl⟩, hnames⟩ := List.forall_mem_cons.mp h
      rw [printedNames, ih hnames, List.map_cons, tagName_tagXname, ← setXname_eq_tagXname, setXname,
        printedName_append]
      rfl

/-- A name of a tag is in the list exactly if the tag is there. -/
theorem mem_tagNames_iff {o : Oid} {s : Tagged} (h : TagsOk site o s) (ho : o ∈ s.hpss.oids)
    (t : Text) :
    t ∈ (s.hpss.attrs o).map (fun a => tagName site.tagPrefix a.1) ↔
      ∃ n : Arg, n.val = t ∧ (s.tags o n).isSome = true := by
  constructor
  · intro ht
    obtain ⟨a, ha, rfl⟩ := List.mem_map.mp ht
    obtain ⟨n, hn⟩ := h.own a ha
    refine ⟨n, by rw [hn, tagName_tagXname], ?_⟩
    have hlook := h.tags ho n
    have hfound : (lookup (s.hpss.attrs o) (tagXname site.tagPrefix n)).isSome = true := by
      rw [lookup, Option.isSome_map, List.find?_isSome]
      exact ⟨a, ha, by simp [hn]⟩
    rwa [hlook, Option.isSome_map] at hfound
  · rintro ⟨n, rfl, hn⟩
    have hlook := h.tags ho n
    have hfound : (lookup (s.hpss.attrs o) (tagXname site.tagPrefix n)).isSome = true := by
      rwa [hlook, Option.isSome_map]
    rw [lookup, Option.isSome_map, List.find?_isSome] at hfound
    obtain ⟨a, ha, hname⟩ := hfound
    refine List.mem_map.mpr ⟨a, ha, ?_⟩
    rw [of_decide_eq_true hname, tagName_tagXname]

/-- The names of a file's attributes, as `llistxattr` returns them. -/
def listing {o : Oid} {s : Tagged} (h : TagsOk site o s) (hnul : nul ∉ site.tagPrefix) : Listing where
  tagPrefix := site.tagPrefix
  names := (s.hpss.attrs o).map Prod.fst
  noNul := ⟨hnul, fun x hx => by
    obtain ⟨a, ha, rfl⟩ := List.mem_map.mp hx
    obtain ⟨n, hn⟩ := h.own a ha
    rw [hn]
    simp only [tagXname, List.mem_append, not_or]
    exact ⟨⟨⟨by decide +kernel, hnul⟩, by decide +kernel⟩, n.2⟩⟩
  nonempty := fun x hx hnil => by
    obtain ⟨a, ha, rfl⟩ := List.mem_map.mp hx
    obtain ⟨n, hn⟩ := h.own a ha
    rw [hn] at hnil
    exact absurd (congrArg List.length hnil) (by simp [tagXname])
  nodup := h.nodup

/-- A list of names is no longer than the bytes that hold it. -/
theorem length_le_bytes (q : Listing) : q.names.length ≤ q.bytes.length := by
  have h : ∀ names : List Text, names.length ≤ (names.flatMap (· ++ [nul])).length := fun names => by
    induction names with
    | nil => exact le_rfl
    | cons x names ih =>
        rw [List.flatMap_cons, List.length_append, List.length_append, List.length_singleton,
          List.length_cons]
        omega
  exact h q.names

variable (site) (mountpoint : Text)

/-- **`hpssix-tag list`** prints the names of the file's tags, each once. -/
theorem list_prints_tags (es : List Event) {req : TagRequest} {env : TagEnv} {args : TagArgs}
    {filename : Text} {o : Oid} (hcmd : req.cmd = .list) (hmounted : env.mounted = true)
    (htarget : tagTarget mountpoint req env = some (args, filename)) (hall : args.printAll = false)
    (hobj : objectAt mountpoint filename (run (Tagged.step site mountpoint) {} es).hpss = some o)
    (hnul : nul ∉ site.tagPrefix) (hfits : 5 + site.tagPrefix.length < 64)
    (hok : env.xattrOk = true ∧ env.allocOk = true) (now : Nat) (time : UInt64) :
    let s := run (Tagged.step site mountpoint) {} es
    ∃ printed, hpssixTag site mountpoint env now time s.hpss req = done ⟨0, printed, s.hpss⟩ ∧
      printed.Nodup ∧ ∀ t, t ∈ printed ↔ ∃ n : Arg, n.val = t ∧ (s.tags o n).isSome = true := by
  intro s
  have h := tagsOk_run site mountpoint o es
  have hattrs : fileAttrs mountpoint env s.hpss filename = s.hpss.attrs o := by
    rw [fileAttrs, hobj]
  have hown : ∀ x ∈ (s.hpss.attrs o).map Prod.fst, ∃ n, x = tagXname site.tagPrefix n := by
    intro x hx
    obtain ⟨a, ha, rfl⟩ := List.mem_map.mp hx
    obtain ⟨n, hn⟩ := h.own a ha
    exact ⟨n, hn⟩
  refine ⟨(s.hpss.attrs o).map fun a => tagName site.tagPrefix a.1, ?_, ?_,
    mem_tagNames_iff h (mem_of_objectAt hobj)⟩
  · have hprint : tagPrintList site.tagPrefix ((listing h hnul).bytes ++ [nul])
        (listing h hnul).bytes.length false ((listing h hnul).bytes.length + 1) =
          done (printedNames ("user.".toList ++ site.tagPrefix) false
            ((s.hpss.attrs o).map Prod.fst)) :=
      ((listing h hnul).print_eq false _).trans
        ((if_pos hfits).trans (if_pos (Nat.lt_succ_of_le (length_le_bytes _))))
    have hbytes : ((s.hpss.attrs o).flatMap fun a => a.1 ++ [nul]) = (listing h hnul).bytes :=
      (List.flatMap_map Prod.fst (· ++ [nul]) (s.hpss.attrs o)).symm
    simp only [hpssixTag, hmounted, Bool.not_true, Bool.false_eq_true, if_false, htarget, hcmd,
      tagCmdListFile, hattrs, if_pos hok, hall]
    rw [hbytes, hprint, printedNames_tags hown, List.map_map]
    rfl
  · have hmap : (s.hpss.attrs o).map (fun a => tagName site.tagPrefix a.1) =
        ((s.hpss.attrs o).map Prod.fst).map (tagName site.tagPrefix) := (List.map_map ..).symm
    rw [hmap]
    refine h.nodup.map_on fun x hx y hy hxy => ?_
    obtain ⟨n, rfl⟩ := hown x hx
    obtain ⟨m, rfl⟩ := hown y hy
    rw [tagName_tagXname, tagName_tagXname] at hxy
    rw [hxy]

end List

/-- The tag of the small run. -/
def color : Arg := ⟨[ 'c' ], by decide⟩

/-- A call on the file of the small run. -/
def onFile (cmd : Subcommand) (options : List TagOption) : TagRequest :=
  ⟨cmd, options, [⟨[ 'a' ], by decide⟩]⟩

/-- The file is found below the mount point. -/
def fileEnv : TagEnv := { realpath := fun _ => some [ '/', 'h', '/', 'a' ] }

/-- A file is made and gets a tag, which is removed and set again. -/
def colorRun : List Event :=
  [.op 1 (.create { objid := .of 10, parentId := rootOid, name := [ 'a' ] } none),
    .tag 2 0 (onFile .set [.name color, .value ⟨[ 'r' ], by decide⟩]) fileEnv,
    .tag 3 0 (onFile .del [.name color]) fileEnv,
    .tag 4 0 (onFile .set [.value ⟨[ 'b' ], by decide⟩, .dereference, .name color]) fileEnv]

/-- The tag was set twice. -/
theorem get_prints_tag_colorRun :
    let s := run (Tagged.step (utcSite (.of 2)) [ '/', 'h' ]) {} colorRun
    hpssixTag (utcSite (.of 2)) [ '/', 'h' ] fileEnv 5 0 s.hpss (onFile .get [.name color]) =
      done ⟨0, [[ 'b' ]], s.hpss⟩ := by
  intro s
  have htag : ((s.tags (.of 10) color).map Subtype.val).toList = [[ 'b' ]] := by decide
  have h := get_prints_tag (utcSite (.of 2)) [ '/', 'h' ] colorRun
    (show (onFile .get [.name color]).cmd = .get from rfl) (show fileEnv.mounted = true from rfl)
    (show tagTarget [ '/', 'h' ] _ _ = some (⟨false, some color, none⟩, [ '/', 'h', '/', 'a' ]) from
      by decide) rfl (show _ = some (.of 10) by decide) (by decide) ⟨rfl, rfl⟩ 5 0
  exact htag ▸ h

/-- Two tags were set, and one of them was removed. -/
theorem list_prints_tags_colorRun :
    let s := run (Tagged.step (utcSite (.of 2)) [ '/', 'h' ]) {} colorRun
    ∃ printed, hpssixTag (utcSite (.of 2)) [ '/', 'h' ] fileEnv 5 0 s.hpss (onFile .list []) =
        done ⟨0, printed, s.hpss⟩ ∧ [ 'c' ] ∈ printed := by
  intro s
  obtain ⟨printed, hprinted, -, hmem⟩ := list_prints_tags (utcSite (.of 2)) [ '/', 'h' ] colorRun
    (show (onFile .list []).cmd = .list from rfl) (show fileEnv.mounted = true from rfl)
    (show tagTarget [ '/', 'h' ] _ _ = some ({}, [ '/', 'h', '/', 'a' ]) from by decide) rfl
    (show _ = some (.of 10) by decide) (by decide) (by decide) ⟨rfl, rfl⟩ 5 0
  exact ⟨printed, hprinted, (hmem _).mpr ⟨color, rfl, by decide⟩⟩

end TagTool

end Hpssix
