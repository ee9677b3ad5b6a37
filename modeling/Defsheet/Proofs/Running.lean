import Defsheet.Command.Run
import Defsheet.Proofs.Mounting
import Mathlib.Data.List.Forall2

/-!
# What commands answer

Both commands begin alike: they read the settings and then every file. Only if all of that succeeds
anything is printed or written. So a command is either blocked, by what it is asked to read, or it
has a batch of documents, and then `check` and `compile` say the same about it.

## Main results

* `Document.loadAll_eq_ok_iff`: the documents that are read.
* `Blocked.prepare` and `exists_prepare_of_not_blocked`: a command is blocked or has its documents.
* `Command.run_answers`: the answers of both commands.
-/

namespace Defsheet

/-! ### Reading -/

/-- The file holds the document. -/
def Document.IsIn (t : FileTree) (p : Path) (d : Document) : Prop :=
  documentName p = .ok d.name ∧ t.read? p = .ok d.text

namespace Document

variable {t : FileTree}

/-- What is loaded from a path is the document that its file holds. -/
theorem load_eq_ok_iff {p : Path} {d : Document} : load t p = .ok d ↔ d.IsIn t p := by
  obtain ⟨name, text⟩ := d
  rw [load, IsIn]
  cases documentName p with
  | error e => simp
  | ok name' =>
      cases t.read? p with
      | error e => simp
      | ok text' => simp

/-- **The documents that are read**: one from each file. -/
theorem loadAll_eq_ok_iff {ps : List Path} {ds : List Document} :
    loadAll t ps = .ok ds ↔ List.Forall₂ (IsIn t) ps ds := by
  induction ps generalizing ds with
  | nil =>
      rw [loadAll, List.forall₂_nil_left_iff, Except.ok.injEq]
      exact eq_comm
  | cons p ps ih =>
      rw [loadAll, List.forall₂_cons_left_iff]
      constructor
      · intro h
        split at h
        · cases h
        next d hd =>
        split at h
        · cases h
        next ds' hds =>
        exact ⟨d, ds', load_eq_ok_iff.mp hd, ih.mp hds, (Except.ok.inj h).symm⟩
      · rintro ⟨d, ds', hd, hds, rfl⟩
        rw [load_eq_ok_iff.mpr hd, ih.mpr hds]

/-- A document that was read has a module. -/
theorem IsIn.moduleName_ne {p : Path} {d : Document} (h : d.IsIn t p) :
    moduleName d.name ≠ "" := by
  have hname := h.1
  rw [documentName] at hname
  split at hname
  · next stem _ =>
    split at hname
    · cases hname
    · next hne => rwa [← Except.ok.inj hname]
  · cases hname

/-- Files hold documents unless one of them does not. -/
theorem exists_isIn_or (t : FileTree) (ps : List Path) :
    (∃ p ∈ ps, (∃ e, documentName p = .error e) ∨ ∃ e, t.read? p = .error e) ∨
      ∃ ds, List.Forall₂ (IsIn t) ps ds := by
  induction ps with
  | nil => exact .inr ⟨[], .nil⟩
  | cons p ps ih =>
      cases hname : documentName p with
      | error e => exact .inl ⟨p, List.mem_cons_self, .inl ⟨e, hname⟩⟩
      | ok name =>
          cases htext : t.read? p with
          | error e => exact .inl ⟨p, List.mem_cons_self, .inr ⟨e, htext⟩⟩
          | ok text =>
              rcases ih with ⟨p', hp', h⟩ | ⟨ds, hds⟩
              · exact .inl ⟨p', List.mem_cons_of_mem p hp', h⟩
              · exact .inr ⟨⟨name, text⟩ :: ds, .cons ⟨hname, htext⟩ hds⟩

end Document

/-- A command cannot begin: its settings cannot be loaded, or one of its files has no document name
or cannot be read. -/
def Blocked (t : FileTree) (home config : Option Path) (files : List Path) : Prop :=
  (∃ e, Settings.discover t home config = .error e) ∨
    ∃ p ∈ files, (∃ e, documentName p = .error e) ∨ ∃ e, t.read? p = .error e

section

variable {t : FileTree} {home config : Option Path} {files : List Path}

/-- A batch that is prepared consists of the documents in the files. -/
theorem prepare_eq_ok_iff {s : Settings} {b : Batch} :
    prepare t home config files = .ok (s, b) ↔ Settings.discover t home config = .ok s ∧
      ∃ ds, List.Forall₂ (Document.IsIn t) files ds ∧
        b = .ofCompilations (ds.map fun d => d.compile s.options) := by
  rw [prepare]
  cases Settings.discover t home config with
  | error e => simp
  | ok s' =>
      simp only [Batch.load, ← Document.loadAll_eq_ok_iff]
      cases Document.loadAll t files with
      | error e => simp
      | ok ds =>
          simp only [Except.ok.injEq, Prod.mk.injEq]
          constructor
          · rintro ⟨rfl, rfl⟩
            exact ⟨rfl, ds, rfl, rfl⟩
          · rintro ⟨rfl, ds', rfl, rfl⟩
            exact ⟨rfl, rfl⟩

/-- Nothing is prepared if the command is blocked. -/
theorem Blocked.prepare (h : Blocked t home config files) :
    ∃ e, prepare t home config files = .error e := by
  cases hprepare : Defsheet.prepare t home config files with
  | error e => exact ⟨e, rfl⟩
  | ok sb =>
      obtain ⟨hs, ds, hds, -⟩ := prepare_eq_ok_iff.mp hprepare
      rcases h with ⟨e, he⟩ | ⟨p, hp, hfile⟩
      · rw [hs] at he
        cases he
      · -- The file holds one of the documents.
        obtain ⟨i, hi, rfl⟩ := List.getElem_of_mem hp
        have hd := hds.get hi (hds.length_eq ▸ hi)
        rcases hfile with ⟨e, he⟩ | ⟨e, he⟩
        · exact absurd (hd.1.symm.trans he) (by simp)
        · exact absurd (hd.2.symm.trans he) (by simp)

/-- Otherwise the files hold documents, and these are prepared. -/
theorem exists_prepare_of_not_blocked (h : ¬Blocked t home config files) :
    ∃ s ds, Settings.discover t home config = .ok s ∧
      List.Forall₂ (Document.IsIn t) files ds ∧
        prepare t home config files =
          .ok (s, .ofCompilations (ds.map fun d => d.compile s.options)) := by
  rw [Blocked, not_or] at h
  obtain ⟨hsettings, hfiles⟩ := h
  cases hs : Settings.discover t home config with
  | error e => exact absurd ⟨e, hs⟩ hsettings
  | ok s =>
      obtain ⟨ds, hds⟩ := (Document.exists_isIn_or t files).resolve_left hfiles
      exact ⟨s, ds, rfl, hds, prepare_eq_ok_iff.mpr ⟨hs, ds, hds, rfl⟩⟩

end

/-! ### Answering -/

namespace Command

/-- What a command reads: its settings and its files. -/
def reads : Command → Option Path × List Path
  | compile config _ _ files => (config, files)
  | check config _ files => (config, files)

/-- What both commands answer when the documents of a batch are compiled to `cs`. -/
structure Answers (t : FileTree) (home config : Option Path) (files : List Path) (s : Settings)
    (cs : List Compilation) : Prop where
  /-- Checking changes no file. -/
  tree_check : ∀ format, ((check config format files).run t home).2 = t
  /-- The status tells whether an error was reported. -/
  status_check : ∀ format, ((check config format files).run t home).1.status =
    if ∃ d ∈ cs.flatMap Compilation.diagnostics ++ (Registry.ofBatch cs).2, d.severity = .error
    then 2 else 0
  /-- Compiling answers the same as checking, if what it writes can be written. -/
  run_compile : ∀ out editorOut r t',
    writeBatch (s.layout out editorOut) (Registry.ofBatch cs).1 cs t = .ok r t' →
      (compile config out editorOut files).run t home =
        (((check config .text files).run t home).1, t')
  /-- Every document has a module. -/
  module_ne : ∀ c ∈ cs, c.module ≠ ""

variable {t : FileTree} {home config : Option Path} {files : List Path}

/-- A command whose documents cannot be prepared fails without a trace. -/
theorem run_of_prepare_eq_error {e : Failure} {c : Command} (hreads : c.reads = (config, files))
    (h : prepare t home config files = .error e) :
    c.run t home = (⟨1, "", some ("error: " ++ e.message)⟩, t) := by
  cases c with
  | compile config' out editorOut files' =>
      obtain ⟨rfl, rfl⟩ := Prod.mk.inj hreads
      rw [run, runCompile, h]
      rfl
  | check config' format files' =>
      obtain ⟨rfl, rfl⟩ := Prod.mk.inj hreads
      rw [run, runCheck, h]
      rfl

/-- What checking answers. -/
theorem run_check {s : Settings} {b : Batch} (format : Format)
    (h : prepare t home config files = .ok (s, b)) :
    (check config format files).run t home =
      (⟨if b.hasErrors then 2 else 0, format.report b.diagnostics, none⟩, t) := by
  rw [run, runCheck, h]
  rfl

/-- A batch has errors if one of its diagnostics is an error. -/
theorem hasErrors_ofCompilations (cs : List Compilation) :
    (Batch.ofCompilations cs).hasErrors = true ↔
      ∃ d ∈ cs.flatMap Compilation.diagnostics ++ (Registry.ofBatch cs).2, d.severity = .error := by
  rw [Batch.hasErrors, List.any_eq_true]
  simp only [Diagnostic.isError, decide_eq_true_eq]
  rfl

/-- Both commands answer for a batch that is prepared. -/
theorem answers_of_prepare_eq_ok {s : Settings} {ds : List Document}
    (hds : List.Forall₂ (Document.IsIn t) files ds)
    (h : prepare t home config files =
      .ok (s, .ofCompilations (ds.map fun d => d.compile s.options))) :
    Answers t home config files s (ds.map fun d => d.compile s.options) where
  tree_check format := by rw [run_check format h]
  status_check format := by
    rw [run_check format h]
    exact if_congr (hasErrors_ofCompilations _) rfl rfl
  run_compile out editorOut r t' hwrite := by
    rw [run_check .text h, run, runCompile, h]
    simp only [Batch.ofCompilations, hwrite]
    rfl
  module_ne c hc := by
    obtain ⟨d, hd, rfl⟩ := List.mem_map.mp hc
    obtain ⟨i, hi, rfl⟩ := List.getElem_of_mem hd
    have hd := hds.get (hds.length_eq ▸ hi) hi
    rw [Document.module_compile]
    exact hd.moduleName_ne

/-- **What commands answer.** A command that is blocked fails, prints nothing and changes nothing.
Otherwise every file holds a document, and both commands answer for these. -/
theorem run_answers (t : FileTree) (home config : Option Path) (files : List Path) :
    (Blocked t home config files → ∀ c : Command, c.reads = (config, files) →
      ∃ message, c.run t home = (⟨1, "", some message⟩, t)) ∧
    (¬Blocked t home config files →
      ∃ s ds, Settings.discover t home config = .ok s ∧
        List.Forall₂ (Document.IsIn t) files ds ∧
          Answers t home config files s (ds.map fun d => d.compile s.options)) := by
  constructor
  · intro hblocked c hreads
    obtain ⟨e, he⟩ := hblocked.prepare
    exact ⟨_, run_of_prepare_eq_error hreads he⟩
  · intro hready
    obtain ⟨s, ds, hs, hds, hprepare⟩ := exists_prepare_of_not_blocked hready
    exact ⟨s, ds, hs, hds, answers_of_prepare_eq_ok hds hprepare⟩

/-- A statement without a name is reported by both commands in the same way, unless another file is
missing. -/
theorem run_answers_nameless_marker :
    let t : FileTree := ⟨["work"], [(["work"], .dir),
      (["work", "level.actions"], .file (.text "marker"))]⟩
    let level : Path := ⟨"level.actions"⟩
    (∃ message, (compile none none none [level, ⟨"absent.actions"⟩]).run t none =
        (⟨1, "", some message⟩, t)) ∧
      ((check none .text [level]).run t none).1.status = 2 ∧
        ∃ t', (compile none none none [level]).run t none =
          (((check none .text [level]).run t none).1, t') := by
  intro t level
  have hloaded : Document.loadAll t [level] = .ok [⟨"level", "marker"⟩] := by decide +kernel
  have hblocked : Blocked t none none [level, ⟨"absent.actions"⟩] :=
    .inr ⟨_, List.mem_cons_of_mem _ List.mem_cons_self, .inr ⟨.notFound, by decide +kernel⟩⟩
  have hready : ¬Blocked t none none [level] := by
    intro hblocked
    obtain ⟨e, he⟩ := hblocked.prepare
    rw [prepare_eq_ok_iff.mpr ⟨rfl, _, Document.loadAll_eq_ok_iff.mp hloaded, rfl⟩] at he
    cases he
  obtain ⟨s, ds, hs, hds, hanswers⟩ := (run_answers t none none [level]).2 hready
  obtain rfl : {} = s := Except.ok.inj hs
  obtain rfl := Except.ok.inj (hloaded.symm.trans (Document.loadAll_eq_ok_iff.mpr hds))
  have hsome : ((writeBatch (Settings.layout {} none none) (Registry.ofBatch
      ([⟨"level", "marker"⟩].map fun d : Document => d.compile {})).1
      ([⟨"level", "marker"⟩].map fun d : Document => d.compile {})).tree? t).isSome = true := by
    decide +kernel
  obtain ⟨t', ht'⟩ := Option.isSome_iff_exists.mp hsome
  obtain ⟨r, hwrite⟩ := Work.tree?_eq_some_iff.mp ht'
  refine ⟨(run_answers t none none _).1 hblocked _ rfl, ?_, t',
    hanswers.run_compile _ _ r t' hwrite⟩
  rw [hanswers.status_check]
  decide +kernel

end Command

end Defsheet
