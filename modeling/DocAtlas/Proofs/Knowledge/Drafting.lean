/-
One document, written beside its place and renamed to it. What holds along a course (`Keeps`) is put together
from what holds along its operations. While a document is written the disk is the one before with a file more,
under a name that was free; in the end it is the one before with the document in its place, or the one before
as it was, or, if even taking away what is left was refused, the one with a file more (`replaceBy_keeps`).
If nothing is refused, that is the document replaced all at once (`replaceBy_quiet`).
-/
import DocAtlas.Knowledge.Saving
import DocAtlas.Proofs.Files.Restoring
import DocAtlas.Proofs.Json.Numbers
import DocAtlas.Proofs.Knowledge.Archiving

namespace DocAtlas

/-! ## Courses -/

namespace Course

/-- What holds along a course: of every disk after its start, of the fault and the disk it left, and of the disk
in the end if there was none. -/
structure Keeps (r : Course) (onTheWay : Disk → Prop) (failed : Fault → Disk → Prop) (done : Disk → Prop) : Prop where
  later : ∀ d ∈ r.later, onTheWay d ∨ r.fault = none ∧ done d
  failed : ∀ f, r.fault = some f → failed f r.disk
  done : r.fault = none → done r.disk

variable {r : Course} {I D D' : Disk → Prop} {F F' : Fault → Disk → Prop} {d : Disk}

theorem Keeps.mono (h : r.Keeps I F D) (hF : ∀ f d, F f d → F' f d) (hD : ∀ d, D d → D' d) : r.Keeps I F' D' where
  later d hd := (h.later d hd).imp_right fun hdone => ⟨hdone.1, hD d hdone.2⟩
  failed f hf := hF f _ (h.failed f hf)
  done hnone := hD _ (h.done hnone)

theorem keeps_stay (hd : D d) : (stay d).Keeps I F D where
  later _ h := by cases h
  failed _ h := by cases h
  done _ := hd

theorem keeps_stop {f : Fault} (hd : F f d) : (stop d f).Keeps I F D where
  later _ h := by cases h
  failed _ h := by
    cases h
    exact hd
  done h := by cases h

theorem keeps_move (hd : D d) : (move d).Keeps I F D where
  later := List.forall_mem_singleton.2 (.inr ⟨rfl, hd⟩)
  failed _ h := by cases h
  done _ := hd

theorem keeps_step {operation : Disk → Except Fault Disk} (hfail : ∀ f, operation d = .error f → F f d)
    (hdone : ∀ d', operation d = .ok d' → D d') : (step operation d).Keeps I F D := by
  unfold step
  split
  · rename_i d' hok
    exact keeps_move (hdone d' hok)
  · rename_i f herror
    exact keeps_stop (hfail f herror)

theorem Keeps.andThen {next : Disk → Course} (h : r.Keeps I F D') (hI : ∀ d, D' d → I d)
    (hnext : ∀ d, D' d → (next d).Keeps I F D) : (r.andThen next).Keeps I F D := by
  have hfirst : ∀ d ∈ r.later, I d := fun d hd => (h.later d hd).elim id fun hdone => hI d hdone.2
  unfold Course.andThen
  split
  · rename_i f hfault
    exact ⟨fun d hd => .inl (hfirst d hd), h.failed, fun hnone => by rw [hfault] at hnone; cases hnone⟩
  · rename_i hnone
    obtain ⟨hlater, hfailed, hdone⟩ := hnext _ (h.done hnone)
    exact ⟨List.forall_mem_append.2 ⟨fun d hd => .inl (hfirst d hd), hlater⟩, hfailed, hdone⟩

/-- An operation in the end that comes to nothing if there was no fault. -/
theorem Keeps.inTheEnd {last : Disk → Except Fault Disk} (h : r.Keeps I F' D) (hdone : ∀ d d', D d → last d ≠ .ok d')
    (hok : ∀ f d d', F' f d → last d = .ok d' → I d' ∧ F f d')
    (herror : ∀ f d g, F' f d → last d = .error g → F f d) : (r.inTheEnd last).Keeps I F D := by
  unfold Course.inTheEnd
  split
  · rename_i d' hlast
    refine ⟨List.forall_mem_append.2 ⟨h.later, List.forall_mem_singleton.2 ?_⟩, fun f hf => ?_, fun hnone => ?_⟩
    · cases hfault : r.fault with
      | none => exact absurd hlast (hdone _ d' (h.done hfault))
      | some f => exact .inl (hok f _ d' (h.failed f hfault) hlast).1
    · exact (hok f _ d' (h.failed f hf) hlast).2
    · exact absurd hlast (hdone _ d' (h.done hnone))
  · rename_i g hlast
    exact ⟨h.later, fun f hf => herror f _ g (h.failed f hf) hlast, h.done⟩

theorem Keeps.during (h : r.Keeps I F D) (context : Text) :
    (r.during context).Keeps I (fun f d => ∃ cause, f = .during context cause ∧ F cause d) D where
  later d hd := (h.later d hd).imp_right fun hdone => ⟨Option.map_eq_none_iff.2 hdone.1, hdone.2⟩
  failed f hf := by
    obtain ⟨cause, hcause, rfl⟩ := Option.map_eq_some_iff.1 hf
    exact ⟨cause, rfl, h.failed cause hcause⟩
  done hnone := h.done (Option.map_eq_none_iff.1 hnone)

/-- A course that ends with the disk something gives, or with its fault and a disk as it was. -/
def EndsAs (r : Course) (result : Except Fault Disk) (d : Disk) : Prop :=
  match result with
  | .ok d' => r.fault = none ∧ r.disk = d'
  | .error f => r.fault = some f ∧ r.disk = d

/-- The disk in the end, or the fault. -/
def outcome (r : Course) : Except Fault Disk :=
  match r.fault with
  | some f => .error f
  | none => .ok r.disk

theorem outcome_eq_ok : r.outcome = .ok d ↔ r.fault = none ∧ r.disk = d := by
  unfold outcome
  cases r.fault <;> simp

theorem outcome_eq_error {f : Fault} : r.outcome = .error f ↔ r.fault = some f := by
  unfold outcome
  cases r.fault <;> simp

theorem outcome_during (r : Course) (context : Text) :
    (r.during context).outcome = r.outcome.mapError (.during context) := by
  obtain ⟨later, disk, fault⟩ := r
  cases fault <;> rfl

theorem outcome_andThen (r : Course) (next : Disk → Course) :
    (r.andThen next).outcome = r.outcome.bind fun d => (next d).outcome := by
  unfold outcome
  cases hr : r.fault with
  | some f => simp only [andThen, hr, Except.bind]
  | none => simp only [andThen, hr, Except.bind]

theorem andThen_assoc (r : Course) (f g : Disk → Course) :
    (r.andThen f).andThen g = r.andThen fun d => (f d).andThen g := by
  cases hr : r.fault with
  | some fault => simp only [andThen, hr]
  | none => cases hf : (f r.disk).fault <;> simp [andThen, hr, hf]

theorem forEach_singleton {α : Type} (course : α → Disk → Course) (x : α) (d : Disk) :
    forEach course [x] d = course x d := by
  change (course x d).andThen stay = course x d
  generalize course x d = r
  obtain ⟨later, disk, fault⟩ := r
  cases fault <;> simp [andThen, stay]

theorem forEach_append {α : Type} (course : α → Disk → Course) (xs ys : List α) (d : Disk) :
    forEach course (xs ++ ys) d = (forEach course xs d).andThen (forEach course ys) := by
  induction xs generalizing d with
  | nil => rfl
  | cons x xs ih =>
    rw [List.cons_append, forEach, forEach, andThen_assoc]
    exact congrArg (andThen (course x d)) (funext ih)

end Course

namespace Archive

theorem orRefused_eq_ok {α : Type} {refused : Option Fault} {result : Except OsError α} {x : α} :
    orRefused refused result = .ok x ↔ refused = none ∧ result = .ok x := by
  cases refused <;> cases result <;> simp [orRefused, Except.mapError]

theorem orRefused_eq_error {α : Type} {refused : Option Fault} {result : Except OsError α} {f : Fault} :
    orRefused refused result = .error f ↔ refused = some f ∨ refused = none ∧ ∃ e, result = .error e ∧ f = .os e := by
  cases refused <;> cases result <;> simp [orRefused, Except.mapError, eq_comm]

/-! ## Names of drafts -/

variable {d d' : Disk} {dir name : Text} {ps : List Text} {content text : Text} {mode : Nat}

theorem besides_eq (name : Text) : besides name = temporary name 0 := by
  unfold besides temporary
  rw [List.append_assoc, List.append_assoc]
  rfl

theorem head?_temporary (name : Text) (ending : Nat) : (temporary name ending).head? = some 46 := rfl

theorem isName_temporary (hname : Path.IsName name) (ending : Nat) : Path.IsName (temporary name ending) := by
  have hdot : Text.ofString "." = [46] := rfl
  have hname' : 0 < name.length := List.length_pos_iff.2 hname.nonempty
  -- with two dots, a name and a number it is longer than the two that are none
  have hlength : 2 < (temporary name ending).length := by
    unfold temporary
    obtain ⟨-, -, b, bs, hdigits, -⟩ := Text.ofNat_spec ending
    rw [hdigits, hdot]
    simp only [List.length_append, List.length_cons, List.length_nil]
    omega
  constructor
  · exact List.ne_nil_of_length_pos (by omega)
  · intro hmem
    have hslash : Path.slash ∉ Text.ofNat ending := by
      intro h
      exact absurd ((Text.ofNat_spec ending).1 _ h) (by decide)
    unfold temporary at hmem
    simp only [hdot, List.mem_append, List.mem_singleton] at hmem
    rcases hmem with ((h | h) | h) | h
    · exact absurd h (by decide)
    · exact hname.noSlash h
    · exact absurd h (by decide)
    · exact hslash h
  · intro h
    rw [h] at hlength
    exact absurd hlength (by decide)
  · intro h
    rw [h] at hlength
    exact absurd hlength (by decide)

theorem ne_temporary (name : Text) (ending : Nat) : name ≠ temporary name ending := by
  intro h
  have hlength := congrArg List.length h
  unfold temporary at hlength
  rw [show Text.ofString "." = [46] from rfl] at hlength
  simp only [List.length_append, List.length_singleton] at hlength
  omega

/-- The draft of a document in a directory. -/
def Draft.inDir (dir name text : Text) (ending : Nat) (ps : List Text) : Draft :=
  ⟨Path.join [dir, name], Path.join [dir, temporary name ending], ps ++ [temporary name ending], text⟩

/-- What is begun is begun under a temporary name that was free. -/
theorem begin?_eq_ok (hd : d.IsHere) (hname : Path.IsName name) {endings : List Nat} {w : Draft}
    (h : Draft.begin? d dir name text endings = .ok (w, d')) :
    ∃ ending ps, d.Spare dir (temporary name ending) ps ∧ w = .inDir dir name text ending ps ∧
      d' = d.withEntry (ps ++ [temporary name ending]) (.file [] 0o600) := by
  induction endings with
  | nil => cases h
  | cons n endings ih =>
    rw [Draft.begin?] at h
    split at h
    · rename_i at_ d1 hcreate
      cases h
      obtain ⟨ps, hspare, rfl, rfl⟩ := (Disk.createNew_eq_ok hd (isName_temporary hname n)).1 hcreate
      exact ⟨n, ps, hspare, rfl, rfl⟩
    · split at h
      · exact ih h
      · cases h

/-! ## Writing a draft -/

/-- A disk with a document in its place, where no directory was. -/
structure Replaced (d : Disk) (dir name text : Text) (x : Disk) (ps : List Text) : Prop where
  leads : d.LeadsTo dir ps
  noDir : ∀ fs, d.root.get? (ps ++ [name]) ≠ some (.dir fs)
  eq : x = d.withEntry (ps ++ [name]) (.file text 0o644)

/-- A disk with a draft of a document under a temporary name. -/
def withDraft (d : Disk) (name : Text) (ending : Nat) (ps : List Text) (content : Text) (mode : Nat) : Disk :=
  d.withEntry (ps ++ [temporary name ending]) (.file content mode)

/-- The disks there are before a document is in its place: the one there was, and those with a draft more. -/
inductive Stage (d : Disk) (dir name : Text) : Disk → Prop
  | before : Stage d dir name d
  | draft {ps : List Text} {ending : Nat} (h : d.Spare dir (temporary name ending) ps) (content : Text) (mode : Nat) :
      Stage d dir name (withDraft d name ending ps content mode)

/-- What a fault leaves of a disk in the end: the disk as it was, or one with a draft more if its removal was
refused. -/
def Remains (d : Disk) (dir name : Text) (refused : Operation → Option Fault) (x : Disk) : Prop :=
  x = d ∨ refused .remove ≠ none ∧ ∃ ending ps content mode, d.Spare dir (temporary name ending) ps ∧
    x = withDraft d name ending ps content mode

theorem Stage.of_eq {ending : Nat} (h : d.Spare dir (temporary name ending) ps) {content : Text} {mode : Nat} :
    ∀ x, x = withDraft d name ending ps content mode → Stage d dir name x := by
  rintro _ rfl
  exact .draft h content mode

section

variable {ending : Nat} {refused : Operation → Option Fault}

/-- Why a draft does not come to its place: an operation was refused, or there is a directory. -/
inductive Hindered (d : Disk) (dir name : Text) (ending : Nat) (ps : List Text) (refused : Operation → Option Fault) :
    Fault → Prop
  | refused {op : Operation} {f : Fault} (h : refused op = some f) : Hindered d dir name ending ps refused f
  | directory {fs : List (Text × Entry)} (h : d.root.get? (ps ++ [name]) = some (.dir fs)) :
      Hindered d dir name ending ps refused
        (.os ⟨"rename", Path.join [dir, temporary name ending], some (Path.join [dir, name]), .alreadyExists⟩)

/-- What a fault leaves before the draft is taken away. -/
def Stuck (d : Disk) (dir name : Text) (ending : Nat) (ps : List Text) (refused : Operation → Option Fault) (f : Fault)
    (x : Disk) : Prop :=
  Hindered d dir name ending ps refused f ∧ ∃ content mode, x = withDraft d name ending ps content mode

/-- An operation that keeps the draft. -/
theorem keeps_attempt {op : Operation} {content' : Text} {mode' : Nat}
    (h : (Draft.inDir dir name text ending ps).perform op (withDraft d name ending ps content mode) =
      .ok (withDraft d name ending ps content' mode')) :
    (Course.step ((Draft.inDir dir name text ending ps).attempt refused op)
      (withDraft d name ending ps content mode)).Keeps
      (Stage d dir name) (Stuck d dir name ending ps refused) (· = withDraft d name ending ps content' mode') := by
  refine Course.keeps_step (fun f hf => ?_) fun x hx => ?_
  · rcases orRefused_eq_error.1 hf with hf | ⟨-, e, he, -⟩
    · exact ⟨.refused hf, _, _, rfl⟩
    · rw [h] at he
      cases he
  · obtain ⟨-, hx⟩ := orRefused_eq_ok.1 hx
    rw [h] at hx
    exact (Except.ok.inj hx).symm

variable (hspare : d.Spare dir (temporary name ending) ps) (hd : d.Orderly)

include hspare hd

/-- The bytes are written one after the other. -/
theorem keeps_writes (count : Nat) :
    (Course.forEach (fun op => .step ((Draft.inDir dir name text ending ps).attempt refused op))
      ((List.range count).map fun i => .write (i + 1)) (withDraft d name ending ps [] 0o600)).Keeps
      (Stage d dir name) (Stuck d dir name ending ps refused)
      (· = withDraft d name ending ps (text.take count) 0o600) := by
  induction count with
  | zero => exact Course.keeps_stay rfl
  | succ count ih =>
    rw [List.range_succ, List.map_append, Course.forEach_append]
    refine ih.andThen (Stage.of_eq hspare) fun x hx => ?_
    subst hx
    have hwrite : (Draft.inDir dir name text ending ps).perform (.write (count + 1))
        (withDraft d name ending ps (text.take count) 0o600) =
        .ok (withDraft d name ending ps (text.take (count + 1)) 0o600) :=
      congrArg Except.ok (hspare.withEntry hd _ _ _ _)
    rw [List.map_singleton, Course.forEach_singleton]
    exact keeps_attempt hwrite

variable (hname : Path.IsName name)

include hname

/-- The last operation puts the document in its place, unless there is a directory. -/
theorem keeps_rename :
    (Course.step ((Draft.inDir dir name text ending ps).attempt refused .rename)
      (withDraft d name ending ps text 0o644)).Keeps
      (Stage d dir name) (Stuck d dir name ending ps refused) (Replaced d dir name text · ps) := by
  have hne := ne_temporary name ending
  by_cases hdir : ∃ fs, d.root.get? (ps ++ [name]) = some (.dir fs)
  · obtain ⟨fs, hdir⟩ := hdir
    have hrename := hspare.rename_dir hd hne hname hdir text 0o644
    refine Course.keeps_step (fun f hf => ?_) fun x hx => ?_
    · rcases orRefused_eq_error.1 hf with hf | ⟨-, e, he, rfl⟩
      · exact ⟨.refused hf, _, _, rfl⟩
      · cases he.symm.trans hrename
        exact ⟨.directory hdir, _, _, rfl⟩
    · cases (orRefused_eq_ok.1 hx).2.symm.trans hrename
  · have hrename := hspare.rename hd hne hname (not_exists.1 hdir) text 0o644
    refine Course.keeps_step (fun f hf => ?_) fun x hx => ?_
    · rcases orRefused_eq_error.1 hf with hf | ⟨-, e, he, rfl⟩
      · exact ⟨.refused hf, _, _, rfl⟩
      · cases he.symm.trans hrename
    · cases (orRefused_eq_ok.1 hx).2.symm.trans hrename
      exact ⟨hspare.leads, not_exists.1 hdir, rfl⟩

theorem keeps_operations :
    (Course.forEach (fun op => .step ((Draft.inDir dir name text ending ps).attempt refused op))
      (Draft.inDir dir name text ending ps).operations (withDraft d name ending ps [] 0o600)).Keeps
      (Stage d dir name) (Stuck d dir name ending ps refused) (Replaced d dir name text · ps) := by
  have hclose : (Draft.inDir dir name text ending ps).perform .close (withDraft d name ending ps text 0o600) =
      .ok (withDraft d name ending ps text 0o600) := rfl
  have hchmod : (Draft.inDir dir name text ending ps).perform .chmod (withDraft d name ending ps text 0o600) =
      .ok (withDraft d name ending ps text 0o644) := hspare.chmod hd text 0o600 0o644
  unfold Draft.operations
  rw [Course.forEach_append]
  refine (keeps_writes hspare hd text.length).andThen (Stage.of_eq hspare) fun x hx => ?_
  rw [List.take_length] at hx
  subst hx
  refine (keeps_attempt hclose).andThen (Stage.of_eq hspare) fun x hx => ?_
  subst hx
  refine (keeps_attempt hchmod).andThen (Stage.of_eq hspare) fun x hx => ?_
  subst hx
  rw [Course.forEach_singleton]
  exact keeps_rename hspare hd hname

/-- A draft comes to its place, or it is taken away, unless that is refused too. -/
theorem keeps_finish (text : Text) (refused : Operation → Option Fault) :
    ((Draft.inDir dir name text ending ps).finish refused (withDraft d name ending ps [] 0o600)).Keeps
      (Stage d dir name) (fun f x => Hindered d dir name ending ps refused f ∧ Remains d dir name refused x)
      (Replaced d dir name text · ps) := by
  have hremove : ∀ content mode,
    (Draft.inDir dir name text ending ps).perform .remove (withDraft d name ending ps content mode) =
      .ok d := hspare.remove hd
  refine (keeps_operations hspare hd hname).inTheEnd ?done ?ok ?error
  case done =>
    rintro x x' ⟨-, hnoDir, rfl⟩ hlast
    obtain ⟨-, hlast⟩ := orRefused_eq_ok.1 hlast
    obtain ⟨e, he⟩ := hspare.remove_renamed hd (ne_temporary name ending) hnoDir text 0o644
    cases hlast.symm.trans he
  case ok =>
    rintro f x x' ⟨hwhy, content, mode, rfl⟩ hlast
    obtain ⟨-, hlast⟩ := orRefused_eq_ok.1 hlast
    cases hlast.symm.trans (hremove content mode)
    exact ⟨.before, hwhy, .inl rfl⟩
  case error =>
    rintro f x g ⟨hwhy, content, mode, rfl⟩ hlast
    rcases orRefused_eq_error.1 hlast with hlast | ⟨-, e, he, -⟩
    · exact ⟨hwhy, .inr ⟨by simp [hlast], ending, ps, content, mode, hspare, rfl⟩⟩
    · cases he.symm.trans (hremove content mode)

end

/-! ## One document -/

/-- Replacing a document goes through its stages, and puts it in its place unless there is a fault. -/
theorem keeps_replaceBy (c : Circumstances) (dir : Text) (hd : d.Orderly) {doc : Text × Json}
    (hname : Path.IsName doc.1) :
    (replaceBy c dir doc d).Keeps (Stage d dir doc.1)
      (fun f x => ∃ cause, f = .during ("write " ++ doc.1) cause ∧ Remains d dir doc.1 (c.refused doc.1) x)
      (fun x => ∃ ps, Replaced d dir doc.1 (documentText doc.2) x ps) := by
  refine Course.Keeps.during ?_ _
  split
  · exact Course.keeps_stop (.inl rfl)
  · rename_i w d' hbegun
    obtain ⟨-, hbegun⟩ := orRefused_eq_ok.1 hbegun
    obtain ⟨ending, ps, hspare, rfl, rfl⟩ := begin?_eq_ok hd.here hname hbegun
    refine (Course.keeps_move (D := (· = withDraft d doc.1 ending ps [] 0o600)) rfl).andThen (Stage.of_eq hspare)
      fun x hx => ?_
    subst hx
    exact (keeps_finish hspare hd hname _ _).mono (fun f x hx => hx.2) fun x hx => ⟨ps, hx⟩

theorem write_of_leadsTo (hd : d.IsHere) (hname : Path.IsName name) (hps : d.LeadsTo dir ps) (v : Json) :
    write d dir name v =
      match d.root.get? (ps ++ [name]) with
      | some (.dir _) =>
        .error (.during ("write " ++ name)
          (.os ⟨"rename", Path.join [dir, besides name], some (Path.join [dir, name]), .alreadyExists⟩))
      | _ => .ok (d.withEntry (ps ++ [name]) (.file (documentText v) 0o644)) := by
  unfold write Disk.replaceFile
  cases hget : d.root.get? (ps ++ [name]) with
  | none =>
    rw [Disk.resolve_join_free hd hname hps hget]
    rfl
  | some e =>
    rw [Disk.resolve_join_found hd hname hps hget]
    cases e <;> rfl

/-- Where the directory is there and the temporary name is free, the draft is made, and it comes to its place
unless a directory is there. -/
theorem endsAs_of_spare (hd : d.Orderly) {doc : Text × Json} (hname : Path.IsName doc.1)
    (hspare : d.Spare dir (temporary doc.1 0) ps) :
      (replaceBy .quiet dir doc d).EndsAs (write d dir doc.1 doc.2) d := by
  have hcreate := (Disk.createNew_eq_ok hd.here hspare.isName).2 ⟨ps, hspare, rfl, rfl⟩
  have hreplace : replaceBy .quiet dir doc d = ((Course.move (withDraft d doc.1 0 ps [] 0o600)).andThen
      ((Draft.inDir dir doc.1 (documentText doc.2) 0 ps).finish fun _ => none)).during ("write " ++ doc.1) := by
    simp only [replaceBy, Circumstances.quiet, Draft.begin?, hcreate, orRefused, Except.mapError]
    rfl
  have hfinish := keeps_finish hspare hd hname (documentText doc.2) fun _ => none
  rw [hreplace, write_of_leadsTo hd.here hname hspare.leads]
  cases hfault : ((Draft.inDir dir doc.1 (documentText doc.2) 0 ps).finish (fun _ => none)
      (withDraft d doc.1 0 ps [] 0o600)).fault with
  | none =>
    obtain ⟨-, hnoDir, heq⟩ := hfinish.done hfault
    split
    · rename_i fs hdir
      exact absurd hdir (hnoDir fs)
    · exact ⟨congrArg (Option.map (Fault.during ("write " ++ doc.1))) hfault, heq⟩
  | some f =>
    obtain ⟨hwhy, hdisk⟩ := hfinish.failed f hfault
    have hdisk := hdisk.resolve_right fun h => h.1 rfl
    cases hwhy with
    | refused h => cases h
    | directory hdir =>
      rw [hdir, besides_eq]
      exact ⟨congrArg (Option.map (Fault.during ("write " ++ doc.1))) hfault, hdisk⟩

/-- Without the directory both fail at the first step. -/
theorem endsAs_of_not_leadsTo (hd : d.Orderly) {doc : Text × Json} (hname : Path.IsName doc.1)
    (hnone : ∀ ps, ¬d.LeadsTo dir ps) : (replaceBy .quiet dir doc d).EndsAs (write d dir doc.1 doc.2) d := by
  obtain ⟨errno, herrno⟩ := Disk.resolve_of_not_leadsTo hd.here hnone
  have hcreate : d.createNew (Path.join [dir, temporary doc.1 0]) =
      .error ⟨"open", Path.join [dir, temporary doc.1 0], none, errno⟩ := by
    rw [Disk.createNew, herrno _ _ (isName_temporary hname 0)]
  have hne : errno ≠ .alreadyExists := by
    have hanswer := Disk.resolve_isAnswer d false (Path.join [dir, doc.1])
    rwa [herrno false doc.1 hname] at hanswer
  have hreplace : replaceBy .quiet dir doc d = (Course.stop d
      (.os ⟨"open", Path.join [dir, temporary doc.1 0], none, errno⟩)).during ("write " ++ doc.1) := by
    simp only [replaceBy, Circumstances.quiet, Draft.begin?, hcreate, if_neg hne, orRefused, Except.mapError]
  have hwrite : write d dir doc.1 doc.2 =
      .error (.during ("write " ++ doc.1) (.os ⟨"open", Path.join [dir, besides doc.1], none, errno⟩)) := by
    simp only [write, Disk.replaceFile, herrno false doc.1 hname]
  rw [hreplace, hwrite, besides_eq]
  exact ⟨rfl, rfl⟩

/-- If nothing is refused and the temporary name is free, the document is replaced as if all at once. -/
theorem replaceBy_quiet (hd : d.Orderly) {doc : Text × Json} (hname : Path.IsName doc.1)
    (hfree : ∀ ps, d.LeadsTo dir ps → d.root.get? (ps ++ [besides doc.1]) = none) :
    (replaceBy .quiet dir doc d).EndsAs (write d dir doc.1 doc.2) d := by
  by_cases hleads : ∃ ps, d.LeadsTo dir ps
  · obtain ⟨ps, hps⟩ := hleads
    exact endsAs_of_spare hd hname ⟨isName_temporary hname 0, hps, besides_eq doc.1 ▸ hfree ps hps⟩
  · exact endsAs_of_not_leadsTo hd hname (not_exists.1 hleads)

end Archive

end DocAtlas
