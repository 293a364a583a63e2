import Rigging.Proofs.Act
import Rigging.Proofs.FileTree
import Rigging.Proofs.Template

/-!
# What writing the output changes

Everything that the output is made of lies below one directory, in files whose names have the ending
of declarations.  Outside of the directory nothing changes, but that the directories above it are made
where they are missing (`ensures_writeOutput`); inside, no file with another ending is left
(`content?_writeOutput`).  What can go wrong is the file system's fault, or that an entity is not linked
(`fails_writeOutput`).
-/

namespace Rigging

namespace FileTree

/-- Outside a directory two trees are the same. -/
def SameOutside (base : List String) (t t' : FileTree) : Prop :=
  ∀ q, ¬base <+: q → t'.get? q = t.get? q

/-- Outside a directory the only difference is that the directories above it are there. -/
def ParentsMade (base : List String) (t t' : FileTree) : Prop :=
  ∀ q, ¬base <+: q → t'.get? q = (t.get? q).or (if q <+: base then some .directory else none)

section Relations

variable {base : List String} (s t u : FileTree)

theorem sameOutside_refl : SameOutside base t t := fun _ _ => rfl

theorem sameOutside_trans (h : SameOutside base s t) (h' : SameOutside base t u) :
    SameOutside base s u :=
  fun q hq => (h' q hq).trans (h q hq)

theorem parentsMade_of_same (h : SameOutside base s t) (h' : ParentsMade base t u) :
    ParentsMade base s u := by
  intro q hq
  rw [h' q hq, h q hq]

theorem parentsMade_same (h : ParentsMade base s t) (h' : SameOutside base t u) :
    ParentsMade base s u :=
  fun q hq => (h' q hq).trans (h q hq)

theorem parentsMade_trans (h : ParentsMade base s t) (h' : ParentsMade base t u) :
    ParentsMade base s u := by
  intro q hq
  rw [h' q hq, h q hq]
  cases s.get? q with
  | some n => rfl
  | none => split <;> rfl

end Relations

/-- Where no file stood, no file has come to stand. -/
def StaysEmpty (place : List String) (t t' : FileTree) : Prop :=
  t.content? place = none → t'.content? place = none

theorem content?_congr {t t' : FileTree} {p : List String} (h : t'.get? p = t.get? p) :
    t'.content? p = t.content? p := by
  rw [content?, content?, h]

/-! ### Single changes -/

theorem ensures_change {R : FileTree → FileTree → Prop} {f : FileTree → Except SystemFault FileTree}
    (h : ∀ t t', f t = .ok t' → R t t') : Act.Ensures R (change f) := by
  intro t x hx
  unfold change at hx ⊢
  rw [Act.state_bind] at hx ⊢
  cases hf : f t with
  | ok t' => exact h t t' hf
  | error fault =>
    rw [hf] at hx
    cases hx

theorem fails_change {Q : Error → Prop} (hsystem : ∀ fault, Q (.system fault))
    (f : FileTree → Except SystemFault FileTree) : Act.Fails Q (change f) := by
  refine Act.fails_bind Act.fails_state fun t => ?_
  split
  · exact Act.fails_modify _
  · exact Act.fails_fail (hsystem _)

theorem ensures_clear {path : String} (hne : Path.components path ≠ []) :
    Act.Ensures (SameOutside (Path.components path)) (clear path) := by
  refine ensures_change fun t t' h => ?_
  split at h
  · rename_i p hp
    obtain rfl := components_of_locate hp
    split at h
    · obtain rfl := Except.ok.inj h
      intro q hq
      rw [get?_remove t hne, if_neg hq]
    · cases h
    · obtain rfl := Except.ok.inj h
      exact sameOutside_refl t
  · cases h
  · obtain rfl := Except.ok.inj h
    exact sameOutside_refl t

/-- **Clearing a directory** leaves no file below it at a place that can be reached. -/
theorem content?_clear {path : String} (hpath : Path.IsPlain path)
    (hne : Path.components path ≠ []) (hnull : ¬path.toList.contains (Char.ofNat 0) = true)
    (henc : Text.encodable path = true) {place : List String}
    (hbelow : Path.components path <+: place) :
    Act.Ensures (fun t t' => t.Reached place → t'.content? place = none) (clear path) := by
  refine ensures_change fun t t' h hreached => ?_
  rcases locate_of_reached hpath hnull henc (hreached.of_prefix hbelow) with hplace | hplace
  · simp only [hplace] at h
    split at h
    · obtain rfl := Except.ok.inj h
      rw [content?, get?_remove t hne, if_pos hbelow]
    · cases h
    · rename_i hnone
      obtain rfl := Except.ok.inj h
      -- what is missing is no directory on the way, so it is the place itself
      by_cases heq : Path.components path = place
      · rw [content?, ← heq, hnone]
      · have hdirectory := hreached _ hbelow heq
        rw [isDirectory, hnone] at hdirectory
        cases hdirectory
  · simp only [hplace] at h
    cases h

theorem staysEmpty_make (path : String) (place : List String) :
    Act.Ensures (StaysEmpty place) (make path) := by
  refine ensures_change fun t t' h hempty => ?_
  split at h
  · cases h
  · unfold makeDirectory at h
    split at h
    · cases h
    · rw [content?, get?_makeDirectories h]
      rw [content?] at hempty
      cases hget : t.get? place with
      | none =>
        rw [Option.none_or]
        split
        · rename_i hdirectory
          split at hdirectory <;> cases hdirectory
        · rfl
      | some node =>
        rw [hget] at hempty
        exact hempty

theorem ensures_make {path : String} {base : List String} {sub : String}
    (hpath : Path.components path = base ++ [sub]) :
    Act.Ensures (ParentsMade base) (make path) := by
  refine ensures_change fun t t' h => ?_
  split at h
  · cases h
  · unfold makeDirectory at h
    split at h
    · cases h
    · rw [hpath] at h
      intro q hq
      rw [get?_makeDirectories h q]
      cases q with
      | nil => rfl
      | cons c q =>
        have hfront : c :: q <+: base ++ [sub] ↔ c :: q <+: base := by
          refine ⟨fun hmade => ?_, fun hmade => hmade.trans (List.prefix_append _ _)⟩
          have hle : (c :: q).length ≤ base.length := Nat.le_of_not_lt fun hlt =>
            hq (List.prefix_of_prefix_length_le (List.prefix_append _ _) hmade (Nat.le_of_lt hlt))
          exact List.prefix_of_prefix_length_le hmade (List.prefix_append _ _) hle
        simp only [List.nil_append, hfront, List.length_nil, List.length_cons, Nat.succ_pos,
          and_true]

/-- **A text that is written** stands where its path leads, and nothing else has changed. -/
theorem ensures_writeText (path text : String) :
    Act.Ensures (fun t t' => t.locate path = .ok (Path.components path) ∧ ∀ q, t'.get? q =
      if q = Path.components path then some (.file text.toUTF8) else t.get? q)
      (writeText path text) := by
  intro t x hx
  unfold writeText at hx ⊢
  rw [Act.state_bind] at hx ⊢
  cases hopen : t.openFile path with
  | error fault =>
    rw [hopen] at hx
    cases hx
  | ok opened =>
    obtain ⟨p, opened⟩ := opened
    rw [hopen] at hx
    obtain ⟨hp, hne, _, rfl⟩ := openFile_ok hopen
    obtain rfl := components_of_locate hp
    dsimp only at hx ⊢
    rw [Act.modify_bind] at hx ⊢
    split at hx
    · rename_i hencodable
      rw [if_pos hencodable]
      refine ⟨hp, fun q => ?_⟩
      rw [Act.modify_apply, get?_put _ hne, get?_put _ hne]
      split <;> rfl
    · cases hx

theorem fails_writeText {Q : Error → Prop} (hsystem : ∀ fault, Q (.system fault))
    (path text : String) : Act.Fails Q (writeText path text) := by
  refine Act.fails_bind Act.fails_state fun t => ?_
  split
  · exact Act.fails_fail (hsystem _)
  · refine Act.fails_bind (Act.fails_modify _) fun _ => ?_
    split
    · exact Act.fails_modify _
    · exact Act.fails_fail (hsystem _)

/-- Writes a file of bytes. -/
def writeBytes (path : String) (content : ByteArray) : Act FileTree Unit := do
  let t ← Act.state
  match t.openFile path with
  | .error fault => Act.fail (.system fault)
  | .ok (p, opened) => Act.modify fun _ => opened.put p (.file content)

/-- A text that can be encoded is written like its bytes. -/
theorem writeText_of_encodable {text : String} (h : Text.encodable text = true) (path : String) :
    writeText path text = writeBytes path text.toUTF8 := by
  funext t
  unfold writeText writeBytes
  rw [Act.state_bind, Act.state_bind]
  cases t.openFile path with
  | error fault => rfl
  | ok opened =>
    dsimp only
    rw [Act.modify_bind, if_pos h]
    rfl

/-- A text that is written below a directory changes nothing outside. -/
theorem sameOutside_writeText {path : String} {base : List String}
    (hbase : base <+: Path.components path) (text : String) :
    Act.Ensures (SameOutside base) (writeText path text) := by
  intro t x hx q hq
  rw [(ensures_writeText path text t x hx).2 q, if_neg]
  rintro rfl
  exact hq hbase

/-- A text that is written elsewhere puts no file at a place. -/
theorem staysEmpty_writeText {path : String} {place : List String}
    (hne : place ≠ Path.components path) (text : String) :
    Act.Ensures (StaysEmpty place) (writeText path text) := by
  intro t x hx hempty
  have hget := (ensures_writeText path text t x hx).2 place
  rw [if_neg hne] at hget
  rw [content?_congr hget]
  exact hempty

end FileTree

namespace Declaration

open FileTree Rigging.Path

/-! ### The files of the output -/

/-- The ending that the names of all written files have. -/
def outputEnding : List Char := ['t', 's']

/-- The path of a file in an output directory. -/
structure IsOutputFile (directory path : String) : Prop where
  plain : IsPlain path
  below : components directory <+: components path
  ending : ∃ c, (components path).getLast? = some c ∧ outputEnding <:+ c.toList

/-- The file of an entity whose name has no slash. -/
theorem isName_entityFile {name : String} (h : '/' ∉ name.toList) : IsName (name ++ ".d.ts") := by
  have hlist : (name ++ ".d.ts").toList = name.toList ++ ['.', 'd', '.', 't', 's'] :=
    String.toList_append
  have hlast : (name ++ ".d.ts").toList.getLast? = some 's' := by
    rw [hlist, List.getLast?_append]
    rfl
  have hne : ∀ c : String, c.toList.getLast? ≠ some 's' → name ++ ".d.ts" ≠ c :=
    fun c hc heq => hc (by rw [← heq, hlast])
  refine ⟨hne _ (by decide), hne _ (by decide), hne _ (by decide), ?_⟩
  rw [hlist, List.mem_append]
  exact fun hmem => hmem.elim h (by decide)

theorem ending_entityFile (name : String) : outputEnding <:+ (name ++ ".d.ts").toList := by
  rw [String.toList_append]
  exact (show outputEnding <:+ ".d.ts".toList by decide).trans (List.suffix_append _ _)

theorem isName_of_mem_files :
    ∀ file ∈ Template.files, IsName file.1 ∧ outputEnding <:+ file.1.toList := by
  have hnames : Template.files.map Prod.fst = ["model.d.ts", "public.d.ts", "sails.ts"] := rfl
  intro file hfile
  have hmem := List.mem_map_of_mem (f := Prod.fst) hfile
  rw [hnames] at hmem
  simp only [List.mem_cons, List.not_mem_nil, or_false] at hmem
  rcases hmem with h | h | h <;> rw [h] <;> decide

/-- The file of an entity, by a way to write texts. -/
def writeEntityBy (write : String → String → Act FileTree Unit) (directory area : String)
    (e : Entity) : Act FileTree String :=
  match e.declarations.linked with
  | none => Act.fail (.notLinked e.describe)
  | some text => do
    let path := entityFile directory area e
    write path text
    return path

/-- A fixed file, by a way to write texts. -/
def writeFixedBy (write : String → String → Act FileTree Unit) (directory : String)
    (file : String × String) : Act FileTree String := do
  let path := child (child directory "sails") file.1
  write path file.2
  return path

/-- The files of the output, behind the making of its directories. -/
def writeFilesBy (write : String → String → Act FileTree Unit) (directory : String) (r : Registry)
    (pool : Pool) : Act FileTree (List String) := do
  let fixed ← Act.mapEach (writeFixedBy write directory) Template.files
  let globalsPath := child directory "globals.d.ts"
  write globalsPath r.globals
  let models ← Act.mapEach (writeEntityBy write directory "models") ((r.modelsIn pool).map Prod.snd)
  let services ←
    Act.mapEach (writeEntityBy write directory "services") ((r.servicesIn pool).map Prod.snd)
  let written := fixed ++ globalsPath :: models ++ services
  Act.notify (.wroteFiles written.length directory)
  return written

/-- The output, step by step. -/
theorem writeOutput_eq (directory : String) (r : Registry) (pool : Pool) :
    writeOutput directory r pool =
      (clear directory >>= fun _ =>
        Act.forEach (fun sub => FileTree.make (child directory sub)) outputDirectories >>= fun _ =>
        writeFilesBy writeText directory r pool) := by
  unfold writeOutput writeFilesBy
  rfl

theorem mem_of_mem_entitiesOf {pool : Pool} {names : List (String × Nat)} {e : Entity}
    (h : e ∈ (Registry.entitiesOf pool names).map Prod.snd) : e ∈ pool := by
  obtain ⟨⟨name, e'⟩, hmem, rfl⟩ := List.mem_map.mp h
  obtain ⟨⟨name', i⟩, _, hsome⟩ := List.mem_filterMap.mp hmem
  obtain ⟨e'', hget, heq⟩ := Option.map_eq_some_iff.mp hsome
  obtain ⟨_, rfl⟩ := Prod.mk.inj heq
  exact List.mem_of_getElem? hget

/-- Files whose texts can be encoded are written like their bytes. -/
theorem writeFilesBy_of_encodable (directory : String) {r : Registry} {pool : Pool}
    (hglobals : Text.encodable r.globals = true)
    (hpool : ∀ e ∈ pool, ∀ text ∈ e.declarations.linked, Text.encodable text = true) :
    writeFilesBy writeText directory r pool =
      writeFilesBy (fun path text => writeBytes path text.toUTF8) directory r pool := by
  have hfixed : ∀ file ∈ Template.files, writeFixedBy writeText directory file =
      writeFixedBy (fun path text => writeBytes path text.toUTF8) directory file := by
    intro file hfile
    rw [writeFixedBy, writeFixedBy, writeText_of_encodable (Template.encodable_files file hfile)]
  have hentity : ∀ area (names : List (String × Nat)),
      ∀ e ∈ (Registry.entitiesOf pool names).map Prod.snd,
        writeEntityBy writeText directory area e =
          writeEntityBy (fun path text => writeBytes path text.toUTF8) directory area e := by
    intro area names e he
    unfold writeEntityBy
    cases hlinked : e.declarations.linked with
    | none => rfl
    | some text =>
      dsimp only
      rw [writeText_of_encodable (hpool e (mem_of_mem_entitiesOf he) text hlinked)]
  unfold writeFilesBy
  simp only [Act.mapEach_congr hfixed, writeText_of_encodable hglobals, Registry.modelsIn,
    Registry.servicesIn, Act.mapEach_congr (hentity "models" r.models),
    Act.mapEach_congr (hentity "services" r.services)]

section Output

variable {directory : String} (hplain : IsPlain directory)

include hplain

/-- A name below the output directory. -/
theorem isPlain_child {c : String} (hc : IsName c) :
    IsPlain (child directory c) ∧ components (child directory c) = components directory ++ [c] := by
  rw [child_eq_join directory hc]
  exact isPlain_join hplain hc

theorem isOutputFile_child {c : String} (hc : IsName c) (hending : outputEnding <:+ c.toList) :
    IsOutputFile directory (child directory c) := by
  obtain ⟨hfile, hcomponents⟩ := isPlain_child hplain hc
  refine ⟨hfile, ?_, c, ?_, hending⟩
  · rw [hcomponents]
    exact List.prefix_append _ _
  · rw [hcomponents, List.getLast?_concat]

/-- A file in one of the directories of the output. -/
theorem isOutputFile_child_child {area c : String} (harea : IsName area) (hc : IsName c)
    (hending : outputEnding <:+ c.toList) :
    IsOutputFile directory (child (child directory area) c) := by
  obtain ⟨hdir, hcomponents⟩ := isPlain_child hplain harea
  have hfile := isOutputFile_child hdir hc hending
  refine ⟨hfile.plain, ?_, hfile.ending⟩
  refine List.IsPrefix.trans ?_ hfile.below
  rw [hcomponents]
  exact List.prefix_append _ _

section Files

-- what writing each single file does is what writing all of them does
variable {R : FileTree → FileTree → Prop} (hrefl : ∀ t, R t t)
  (htrans : ∀ s t u, R s t → R t u → R s u)
  (hwrite : ∀ path text, IsOutputFile directory path → Act.Ensures R (writeText path text))

include hrefl htrans hwrite

theorem ensures_writeEntities {area : String} (harea : IsName area) {es : List Entity}
    (hes : ∀ e ∈ es, '/' ∉ e.name.toList) :
    Act.Ensures R (Act.mapEach (writeEntityBy writeText directory area) es) := by
  refine Act.ensures_mapEach hrefl htrans fun e he => ?_
  unfold writeEntityBy
  have hfile := isOutputFile_child_child hplain harea (isName_entityFile (hes e he))
    (ending_entityFile e.name)
  split
  · exact fun _ _ h => nomatch h
  · exact Act.ensures_bind htrans (hwrite _ _ hfile) fun _ =>
      Act.ensures_of_keeps hrefl (Act.keeps_pure _)

theorem ensures_writeFixed :
    Act.Ensures R (Act.mapEach (writeFixedBy writeText directory) Template.files) := by
  refine Act.ensures_mapEach hrefl htrans fun file hmem => ?_
  obtain ⟨hname, hending⟩ := isName_of_mem_files file hmem
  have hfile := isOutputFile_child_child hplain (show IsName "sails" by decide) hname hending
  exact Act.ensures_bind htrans (hwrite _ _ hfile) fun _ =>
    Act.ensures_of_keeps hrefl (Act.keeps_pure _)

theorem ensures_writeFiles {r : Registry} {pool : Pool} (hpool : ∀ e ∈ pool, '/' ∉ e.name.toList) :
    Act.Ensures R (writeFilesBy writeText directory r pool) := by
  have hentities : ∀ names : List (String × Nat),
      ∀ e ∈ (Registry.entitiesOf pool names).map Prod.snd, '/' ∉ e.name.toList :=
    fun names e he => hpool e (mem_of_mem_entitiesOf he)
  have hglobals : IsOutputFile directory (child directory "globals.d.ts") :=
    isOutputFile_child hplain (by decide) (by decide)
  refine Act.ensures_bind htrans (ensures_writeFixed hplain hrefl htrans hwrite) fun _ => ?_
  refine Act.ensures_bind htrans (hwrite _ _ hglobals) fun _ => ?_
  refine Act.ensures_bind htrans
    (ensures_writeEntities hplain hrefl htrans hwrite (by decide) (hentities r.models)) fun _ => ?_
  refine Act.ensures_bind htrans
    (ensures_writeEntities hplain hrefl htrans hwrite (by decide) (hentities r.services)) fun _ => ?_
  exact Act.ensures_of_keeps hrefl
    (Act.keeps_bind (Act.keeps_notify _) fun _ => Act.keeps_pure _)

end Files

theorem ensures_makeAll {subs : List String} (hne : subs ≠ []) (hsubs : ∀ c ∈ subs, IsName c) :
    Act.Ensures (ParentsMade (components directory))
      (Act.forEach (fun sub => FileTree.make (child directory sub)) subs) := by
  have hmake : ∀ c ∈ subs, Act.Ensures (ParentsMade (components directory))
      (FileTree.make (child directory c)) :=
    fun c hc => ensures_make (isPlain_child hplain (hsubs c hc)).2
  induction subs with
  | nil => exact absurd rfl hne
  | cons c subs ih =>
    cases subs with
    | nil =>
      exact Act.ensures_bind parentsMade_same (hmake c List.mem_cons_self) fun _ =>
        Act.ensures_of_keeps sameOutside_refl (Act.keeps_pure ())
    | cons d subs =>
      exact Act.ensures_bind parentsMade_trans (hmake c List.mem_cons_self) fun _ =>
        ih (List.cons_ne_nil _ _) (fun x hx => hsubs x (List.mem_cons_of_mem _ hx))
          fun x hx => hmake x (List.mem_cons_of_mem _ hx)

/-- **What writing the output changes outside its directory**: the directories above it are made. -/
theorem ensures_writeOutput (hne : components directory ≠ []) {r : Registry} {pool : Pool}
    (hpool : ∀ e ∈ pool, '/' ∉ e.name.toList) :
    Act.Ensures (ParentsMade (components directory)) (writeOutput directory r pool) := by
  rw [writeOutput_eq]
  refine Act.ensures_bind parentsMade_of_same (ensures_clear hne) fun _ => ?_
  refine Act.ensures_bind parentsMade_same
    (ensures_makeAll hplain (by decide) (by decide)) fun _ => ?_
  exact ensures_writeFiles hplain sameOutside_refl sameOutside_trans
    (fun path text hfile => sameOutside_writeText hfile.below text) hpool

/-- **What writing the output leaves of other files in its directory**: nothing. -/
theorem content?_writeOutput (hne : components directory ≠ [])
    (hnull : ¬directory.toList.contains (Char.ofNat 0) = true)
    (henc : Text.encodable directory = true) {r : Registry} {pool : Pool}
    (hpool : ∀ e ∈ pool, '/' ∉ e.name.toList) {place : List String}
    (hbelow : components directory <+: place)
    (hending : ∀ c, place.getLast? = some c → ¬outputEnding <:+ c.toList) :
    Act.Ensures (fun t t' => t.Reached place → t'.content? place = none)
      (writeOutput directory r pool) := by
  have hother : ∀ path text, IsOutputFile directory path →
      Act.Ensures (StaysEmpty place) (writeText path text) := by
    intro path text hfile
    refine staysEmpty_writeText ?_ text
    rintro rfl
    obtain ⟨c, hlast, hc⟩ := hfile.ending
    exact hending c hlast hc
  have htrans : ∀ s t u, StaysEmpty place s t → StaysEmpty place t u → StaysEmpty place s u :=
    fun s t u h h' hempty => h' (h hempty)
  rw [writeOutput_eq]
  refine Act.ensures_bind (fun s t u hcleared (hrest : StaysEmpty place t u) hreached =>
    hrest (hcleared hreached)) (content?_clear hplain hne hnull henc hbelow) fun _ => ?_
  refine Act.ensures_bind htrans
    (Act.ensures_forEach (fun _ => id) htrans fun c _ => staysEmpty_make _ place) fun _ => ?_
  exact ensures_writeFiles hplain (fun _ => id) htrans hother hpool

end Output

/-- **The errors of writing** are faults of the file system, and that an entity is not linked. -/
theorem fails_writeOutput {Q : Error → Prop} (hsystem : ∀ fault, Q (.system fault))
    (directory : String) {r : Registry} {pool : Pool}
    (hlinked : ∀ e ∈ r.modelsIn pool ++ r.servicesIn pool, e.2.declarations.linked = none →
      Q (.notLinked e.2.describe)) : Act.Fails Q (writeOutput directory r pool) := by
  have hentities : ∀ area, ∀ es : List (String × Entity), (∀ e ∈ es,
      e.2.declarations.linked = none → Q (.notLinked e.2.describe)) →
      Act.Fails Q (writeEntities directory area (es.map Prod.snd)) := by
    intro area es hes
    refine Act.fails_mapEach fun e he => ?_
    obtain ⟨named, hnamed, rfl⟩ := List.mem_map.mp he
    split
    · rename_i hnone
      exact Act.fails_fail (hes named hnamed hnone)
    · exact Act.fails_bind (fails_writeText hsystem _ _) fun _ => Act.fails_pure _
  refine Act.fails_bind (fails_change hsystem _) fun _ => ?_
  refine Act.fails_bind (Act.fails_forEach fun _ _ => fails_change hsystem _) fun _ => ?_
  refine Act.fails_bind (Act.fails_mapEach fun _ _ =>
    Act.fails_bind (fails_writeText hsystem _ _) fun _ => Act.fails_pure _) fun _ => ?_
  refine Act.fails_bind (fails_writeText hsystem _ _) fun _ => ?_
  refine Act.fails_bind (hentities _ _ fun e he => hlinked e (List.mem_append_left _ he)) fun _ => ?_
  refine Act.fails_bind (hentities _ _ fun e he => hlinked e (List.mem_append_right _ he)) fun _ => ?_
  exact Act.fails_bind (Act.fails_notify _) fun _ => Act.fails_pure _

end Declaration

end Rigging
