import NescTree.CommandLine.Run
import NescTree.Proofs.CommandLine.OpenedOutput

/-!
# All or nothing

A command writes what its trees come to, each as a whole, up to the first fault.  An output
file has all of it or is gone.  Both are said here with the results that single trees have
on their own, so nothing depends on how output is on its way while further sources are read.
-/

namespace NescTree.CommandLine

section Results

def Command.result (command : Command) (oneLine : Bool) (store : Store) (tree : Tree) :
    Except Fault String :=
  match command with
  | .render => (Service.render store .initial (.tree tree)).result
  | .dump =>
    (Service.dump store (Settings.initial.set "one_line" (.flag oneLine)) (.tree tree)).result

/-- What the trees of a source come to, or why there are none to be had. -/
def outcomes (store : Store) (convert : Tree → Except Fault String) (name : String) :
    List (Except Fault String) :=
  match (Service.openFile store name).bind (Notation.readTrees (some name)) with
  | .error fault => [.error fault]
  | .ok trees => trees.map convert

/-- The texts before the first fault, one after the other. -/
def textBefore : List (Except Fault String) → String
  | [] | .error _ :: _ => ""
  | .ok text :: results => text ++ textBefore results

def firstFault? : List (Except Fault String) → Option Fault
  | [] => none
  | .error fault :: _ => some fault
  | .ok _ :: results => firstFault? results

variable {results more : List (Except Fault String)} {fault : Fault}

theorem firstFault?_append_of_none (hresults : firstFault? results = none) :
    firstFault? (results ++ more) = firstFault? more := by
  induction results with
  | nil => rfl
  | cons result results ih =>
    cases result with
    | error fault => cases hresults
    | ok text => exact ih hresults

theorem firstFault?_append_of_some (hresults : firstFault? results = some fault) :
    firstFault? (results ++ more) = some fault := by
  induction results with
  | nil => cases hresults
  | cons result results ih =>
    cases result with
    | error first => exact hresults
    | ok text => exact ih hresults

theorem textBefore_append_of_none (hresults : firstFault? results = none) :
    textBefore (results ++ more) = textBefore results ++ textBefore more := by
  induction results with
  | nil => simp [textBefore]
  | cons result results ih =>
    cases result with
    | error fault => cases hresults
    | ok text =>
      rw [List.cons_append, textBefore, textBefore, ih hresults, String.append_assoc]

theorem textBefore_append_of_some (hresults : firstFault? results = some fault) :
    textBefore (results ++ more) = textBefore results := by
  induction results with
  | nil => cases hresults
  | cons result results ih =>
    cases result with
    | error first => rfl
    | ok text => rw [List.cons_append, textBefore, textBefore, ih hresults]

end Results

section Producing

/-- Output that was produced as some results say, after what was written before. -/
structure Produced.Follows (produced : Produced) (spool : Spool)
    (results : List (Except Fault String)) : Prop where
  text : produced.text = spool.text ++ textBefore results
  fault : produced.fault? = firstFault? results

namespace Produced.Follows

variable {produced : Produced} {spool : Spool} {results more : List (Except Fault String)}

theorem after (hproduced : produced.Follows spool results) (records : List Record) :
    (produced.after records).Follows spool results :=
  ⟨hproduced.text, hproduced.fault⟩

/-- Nothing more was written and there was no fault. -/
theorem nothing (spool : Spool) (records : List Record) :
    Produced.Follows ⟨spool, records, none⟩ spool [] :=
  ⟨String.append_empty.symm, rfl⟩

/-- Nothing more was written since there was a fault. -/
theorem stopped (spool : Spool) (records : List Record) (fault : Fault) :
    Produced.Follows ⟨spool, records, some fault⟩ spool (.error fault :: results) :=
  ⟨String.append_empty.symm, rfl⟩

/-- A text that was written before comes first. -/
theorem write {text : String} (hproduced : produced.Follows (spool.write text) results) :
    produced.Follows spool (.ok text :: results) := by
  refine ⟨?_, hproduced.fault⟩
  calc produced.text
      = (spool.write text).text ++ textBefore results := hproduced.text
    _ = spool.text ++ (text ++ textBefore results) := by
        rw [Spool.text_write, String.append_assoc]

/-- What comes after a fault makes no difference. -/
theorem append_of_some {fault : Fault} (hproduced : produced.Follows spool results)
    (hfault : produced.fault? = some fault) : produced.Follows spool (results ++ more) := by
  have hresults : firstFault? results = some fault := hproduced.fault.symm.trans hfault
  constructor
  · rw [textBefore_append_of_some hresults]
    exact hproduced.text
  · rw [firstFault?_append_of_some hresults]
    exact hfault

/-- Without a fault the output goes on where it was. -/
theorem append_of_none {later : Produced} (hproduced : produced.Follows spool results)
    (hfault : produced.fault? = none) (hlater : later.Follows produced.spool more) :
    later.Follows spool (results ++ more) := by
  have hresults : firstFault? results = none := hproduced.fault.symm.trans hfault
  constructor
  · calc later.text
        = produced.text ++ textBefore more := hlater.text
      _ = spool.text ++ textBefore (results ++ more) := by
          rw [hproduced.text, textBefore_append_of_none hresults, String.append_assoc]
  · rw [firstFault?_append_of_none hresults]
    exact hlater.fault

end Produced.Follows

variable {convert : Tree → Logged String}

/-- Each tree is written as a whole, or stops the rest. -/
theorem follows_produceTrees (spool : Spool) (trees : List Tree) :
    (produceTrees convert spool trees).Follows spool
      (trees.map fun tree => (convert tree).result) := by
  induction trees generalizing spool with
  | nil => exact .nothing spool []
  | cons tree trees ih =>
    rw [produceTrees, List.map_cons]
    cases hresult : (convert tree).result with
    | error fault => exact .stopped spool _ fault
    | ok text => exact (ih (spool.write text)).write.after _

/-- Reports do not change whether the trees of a file can be had. -/
theorem result_load (store : Store) (name : String) :
    (load store name).result =
      (Service.openFile store name).bind (Notation.readTrees (some name)) := by
  rw [load, Logged.result_bind, Logged.result_ofExcept]
  apply congrArg
  funext text
  rw [Logged.result_bind, Service.result_readAll]
  cases Notation.readTrees (some name) text with
  | error fault => rfl
  | ok trees => rfl

/-- If no source is the output file, what is produced does not depend on how far the output
has come. -/
theorem follows_produceSources {store : Store} {target : Target} (spool : Spool)
    {names : List String} (hview : ∀ name ∈ names, ∀ written,
      (target.view store written).openRead name = store.openRead name) :
    (produceSources store target convert spool names).Follows spool
      (names.flatMap (outcomes store fun tree => (convert tree).result)) := by
  induction names generalizing spool with
  | nil => exact .nothing spool []
  | cons name names ih =>
    obtain ⟨hname, hnames⟩ := List.forall_mem_cons.1 hview
    have hload : (load (target.view store spool) name).result =
        (Service.openFile store name).bind (Notation.readTrees (some name)) := by
      rw [result_load, Service.openFile, hname spool, Service.openFile]
    rw [produceSources, List.flatMap_cons, outcomes, ← hload]
    cases (load (target.view store spool) name).result with
    | error fault => exact .stopped spool _ fault
    | ok trees =>
      have htrees := (@follows_produceTrees convert spool trees).after
        (load (target.view store spool) name).records
      dsimp only
      split
      · rename_i fault hfault
        exact htrees.append_of_some hfault
      · rename_i hfault
        exact (htrees.append_of_none hfault (ih _ hnames)).after _

end Producing

section Commands

variable {store : Store} {invocation : Invocation} {threshold : Nat}

/-- The other files are read as if the output file stayed as it was opened. -/
theorem openRead_view {target : Target} (hopened : Opened store target) {name : String}
    (hname : ∀ place, target = .file place → Path.ofName name ≠ place) (written : Spool) :
    (target.view store written).openRead name = store.openRead name := by
  cases target with
  | terminal | nowhere => rfl
  | file place => exact Store.openRead_insert (hopened place rfl) (hname place rfl)

theorem check_of_ne_nowhere {target : Target} (htarget : target ≠ .nowhere) (step : String) :
    target.check step = .ok () := by
  cases target with
  | terminal | file place => rfl
  | nowhere => exact absurd rfl htarget

theorem not_highlighted_applyTo (hplain : invocation.color = false ∧ invocation.html = false) :
    (invocation.applyTo .initial).highlighted = false := by
  rw [Settings.highlighted, Invocation.applyTo, hplain.1, hplain.2]
  rfl

/-- Settings that ask for no highlighting make no difference. -/
theorem renderTree_of_not_highlighted {settings : Settings}
    (hsettings : settings.highlighted = false) (tree : Tree) :
    Service.renderTree settings tree = Service.renderTree .initial tree := by
  have hinitial : Settings.initial.highlighted = false := rfl
  rw [Service.renderTree, Service.renderTree, hsettings, hinitial]
  rfl

/-- A tree that is given as such does not have to be read. -/
theorem render_tree (store : Store) (settings : Settings) (tree : Tree) :
    (Service.render store settings (.tree tree)).result =
      (Service.renderTree settings tree).result :=
  Logged.result_bind (pure tree) _

theorem dump_tree (store : Store) (settings : Settings) (tree : Tree) :
    (Service.dump store settings (.tree tree)).result = (Service.dumpTree settings tree).result :=
  Logged.result_bind (pure tree) _

/-- Without highlighting a command converts a tree as it is converted on its own. -/
theorem result_convert (command : Command)
    (hplain : command = .render → invocation.color = false ∧ invocation.html = false)
    (tree : Tree) :
    (command.convert invocation tree).result =
      command.result invocation.oneLine store tree := by
  cases command with
  | dump => exact (dump_tree store _ tree).symm
  | render =>
    have hsettings := not_highlighted_applyTo (hplain rfl)
    calc (Command.render.convert invocation tree).result
        = (Service.renderTree .initial tree).result := by
          rw [Command.convert, renderTree_of_not_highlighted hsettings]
      _ = Command.render.result invocation.oneLine store tree :=
          (render_tree store .initial tree).symm

/-- Output that goes somewhere can always be written and flushed. -/
theorem produce_eq (command : Command) (store : Store) (htarget : invocation.target ≠ .nowhere) :
    command.produce store invocation =
      produceSources store invocation.target
        (fun tree => do
          let text ← command.convert invocation tree
          Logged.ofExcept (.ok ())
          return text) .empty invocation.sources := by
  simp only [Command.produce, check_of_ne_nowhere htarget]
  split
  · rename_i hflush
    cases hflush
  · rfl

/-- Output that goes somewhere is produced as its trees come out on their own. -/
theorem follows_produce (command : Command)
    (hplain : command = .render → invocation.color = false ∧ invocation.html = false)
    (htarget : invocation.target ≠ .nowhere) (hopened : Opened store invocation.target)
    (hsources : ∀ place, invocation.target = .file place →
      ∀ name ∈ invocation.sources, Path.ofName name ≠ place) :
    (command.produce store invocation).Follows .empty
      (invocation.sources.flatMap
        (outcomes store (command.result invocation.oneLine store))) := by
  have hview : ∀ name ∈ invocation.sources, ∀ written,
      (invocation.target.view store written).openRead name = store.openRead name := by
    intro name hname
    apply openRead_view hopened
    exact fun place hplace => hsources place hplace name hname
  have hconvert : (fun tree => Logged.result (do
        let text ← command.convert invocation tree
        Logged.ofExcept (.ok ())
        return text)) = command.result invocation.oneLine store := by
    funext tree
    rw [Logged.result_bind, result_convert command hplain]
    cases command.result invocation.oneLine store tree with
    | error fault => rfl
    | ok text => rfl
  rw [produce_eq command store htarget, ← hconvert]
  exact follows_produceSources .empty hview

section Delivery

variable {produced : Produced} {place : Path}

theorem deliver_file_of_none (hfault : produced.fault? = none) :
    deliver store (.file place) produced = ("", store.insert place produced.text) := by
  simp only [deliver, hfault]

theorem deliver_file_of_some {fault : Fault} (hfault : produced.fault? = some fault) :
    deliver store (.file place) produced = ("", store.erase place) := by
  simp only [deliver, hfault]

end Delivery

/-- A parsed command with a known log level runs with its log shown from that level on. -/
theorem run_of_parse {command : Command} {opened : Store} {arguments : List String} (host : Host)
    (hparse : parse command.switches store arguments = .ok (opened, invocation))
    (hlevel : invocation.threshold? = some threshold) :
    command.run host store arguments = runLogged host command opened invocation threshold := by
  rw [Command.run, hparse]
  simp only [runInvocation, hlevel]

/-- A command writes the results of its trees as wholes, in order and up to the first fault:
a source that cannot be opened or read counts as one fault and gives no tree.  An output file
has the whole output, or is gone if anything failed.  The command itself ends with status 1
for complaints and missing files, and hands on any other fault.  Names of sources are those
of other files than the output; a value is given wherever the log level or the output are
named. -/
theorem output_all_or_nothing {command : Command} {host : Host} {opened : Store}
    {arguments : List String}
    (hparse : parse command.switches store arguments = .ok (opened, invocation))
    (hlevel : invocation.threshold?.isSome = true) (htarget : invocation.target ≠ .nowhere)
    (hplain : command = .render → invocation.color = false ∧ invocation.html = false)
    (hsources : ∀ place, invocation.target = .file place →
      ∀ name ∈ invocation.sources, Path.ofName name ≠ place) :
    let report := command.run host store arguments
    let results := invocation.sources.flatMap
      (outcomes opened (command.result invocation.oneLine opened))
    (invocation.target = .terminal →
      report.stdout = textBefore results ∧ report.store = opened) ∧
    (∀ place, invocation.target = .file place →
      report.stdout = "" ∧
      report.store.get? place =
        (if firstFault? results = none then some (textBefore results) else none) ∧
      ∀ other, other ≠ place → report.store.get? other = opened.get? other) ∧
    (firstFault? results = none → report.exit = 0 ∧ report.crash? = none) ∧
    ∀ fault, firstFault? results = some fault →
      (report.exit = 1 ∧ report.crash? = none ↔
        fault.isComplaint = true ∨ fault.isMissingFile = true) ∧
      (¬(fault.isComplaint = true ∨ fault.isMissingFile = true) →
        report.crash? = some fault) := by
  intro report results
  obtain ⟨threshold, hthreshold⟩ := Option.isSome_iff_exists.1 hlevel
  have hopened := opened_of_parse hparse
  have hproduced : (command.produce opened invocation).Follows .empty results :=
    follows_produce command hplain htarget hopened hsources
  have hreport : report = runLogged host command opened invocation threshold :=
    run_of_parse host hparse hthreshold
  have htext : (command.produce opened invocation).text = textBefore results := by
    rw [hproduced.text]
    exact String.empty_append
  have hdelivered : (report.stdout, report.store) =
      deliver opened invocation.target (command.produce opened invocation) := by
    rw [hreport]
    rfl
  have hexit : report.exit = if (firstFault? results).isSome then 1 else 0 := by
    rw [hreport, ← hproduced.fault]
    rfl
  have hcrash : report.crash? =
      (firstFault? results).filter fun fault => !(fault.isComplaint || fault.isMissingFile) := by
    rw [hreport, ← hproduced.fault]
    rfl
  refine ⟨?_, ?_, ?_, ?_⟩
  · intro hterminal
    rw [hterminal, deliver, htext] at hdelivered
    exact Prod.mk.inj hdelivered
  · intro place hplace
    rw [hplace] at hdelivered
    cases hfault : firstFault? results with
    | none =>
      rw [deliver_file_of_none (hproduced.fault.trans hfault), htext] at hdelivered
      obtain ⟨hstdout, hstore⟩ := Prod.mk.inj hdelivered
      refine ⟨hstdout, ?_, fun other hother => ?_⟩
      · rw [hstore, Store.get?_insert_self, if_pos rfl]
      · rw [hstore, Store.get?_insert_of_ne hother]
    | some fault =>
      rw [deliver_file_of_some (hproduced.fault.trans hfault)] at hdelivered
      obtain ⟨hstdout, hstore⟩ := Prod.mk.inj hdelivered
      refine ⟨hstdout, ?_, fun other hother => ?_⟩
      · rw [hstore, Store.get?_erase_self, if_neg (Option.some_ne_none fault)]
      · rw [hstore, Store.get?_erase_of_ne hother]
  · intro hnone
    rw [hexit, hcrash, hnone]
    exact ⟨rfl, rfl⟩
  · intro fault hfault
    rw [hexit, hcrash, hfault]
    cases hcomplaint : fault.isComplaint <;> cases hmissing : fault.isMissingFile <;>
      simp [Option.filter, hcomplaint, hmissing]

/-- The second tree of the second file lacks an operand.  The two trees before it are shown at
the terminal, and an output file is gone with them. -/
theorem output_all_or_nothing_short_tree :
    let host : Host := ⟨"this machine", "noon"⟩
    let files := [(["a.tree"], "(BREAK)"), (["b.tree"], "(BREAK) (PLUS a) (CONTINUE)")]
    let shown : Invocation := { Invocation.initial with sources := ["a.tree", "b.tree"] }
    let stored : Invocation := { shown with target := .file ["out"] }
    parse Command.render.switches ⟨files, []⟩ ["a.tree", "b.tree"] = .ok (⟨files, []⟩, shown) ∧
    parse Command.render.switches ⟨files, []⟩ ["a.tree", "b.tree", "-o", "out"] =
      .ok (⟨files ++ [(["out"], "")], []⟩, stored) ∧
    (∀ name ∈ stored.sources, Path.ofName name ≠ ["out"]) ∧
    (Command.render.run host ⟨files, []⟩ ["a.tree", "b.tree"]).stdout = "break;\n\nbreak;\n\n" ∧
    (Command.render.run host ⟨files, []⟩ ["a.tree", "b.tree", "-o", "out"]).store.get? ["out"] =
      none := by
  intro host files shown stored
  have hshown : parse Command.render.switches ⟨files, []⟩ ["a.tree", "b.tree"] =
      .ok (⟨files, []⟩, shown) := by rfl
  have hstored : parse Command.render.switches ⟨files, []⟩ ["a.tree", "b.tree", "-o", "out"] =
      .ok (⟨files ++ [(["out"], "")], []⟩, stored) := by rfl
  have hsources : ∀ name ∈ stored.sources, Path.ofName name ≠ ["out"] := by decide +kernel
  refine ⟨hshown, hstored, hsources, ?_, ?_⟩
  · have hterminal := (@output_all_or_nothing _ _ _ host _ _ hshown rfl nofun
      (fun _ => ⟨rfl, rfl⟩) nofun).1
    rw [(hterminal rfl).1]
    decide +kernel
  · have houtput : ∀ place, stored.target = .file place →
        ∀ name ∈ stored.sources, Path.ofName name ≠ place := by
      rintro place hplace
      cases hplace
      exact hsources
    have hfile := (@output_all_or_nothing _ _ _ host _ _ hstored rfl nofun (fun _ => ⟨rfl, rfl⟩)
      houtput).2.1
    rw [(hfile ["out"] rfl).2.1]
    decide +kernel

end Commands

end NescTree.CommandLine
