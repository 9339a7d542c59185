import ShaderLift.Proofs.Effects.Memory
import ShaderLift.Proofs.Lift.Functions

/-!
Instructions with two results. The results that are written anywhere are computed in a block, each
under a name of its own that is not used for anything else, and written after that. Registers are
read first, unless the place where the second result goes depends on the first one.
-/

namespace ShaderLift

open Glsl

-- Names of blocks, of which each is used once, with numbers from `m` to below `n`.
structure Fresh (m n : Nat) (names : List Name) : Prop where
  le     : m ≤ n
  nodup  : names.Nodup
  within : ∀ name ∈ names, ∃ k, name = .scratch k ∧ m ≤ k ∧ k < n

namespace Fresh

variable {k m n : Nat} {names names' : List Name}

theorem nil (h : m ≤ n) : Fresh m n [] :=
  ⟨h, List.nodup_nil, List.forall_mem_nil _⟩

theorem single : Fresh n (n + 1) [.scratch n] where
  le     := Nat.le_succ n
  nodup  := List.nodup_singleton _
  within := List.forall_mem_singleton.mpr ⟨n, rfl, Nat.le_refl n, Nat.lt_succ_self n⟩

theorem append (h : Fresh k m names) (h' : Fresh m n names') : Fresh k n (names ++ names') := by
  refine ⟨h.le.trans h'.le, h.nodup.append h'.nodup fun name hn hn' => ?_, ?_⟩
  case refine_1 =>
    obtain ⟨i, rfl, _, hi⟩ := h.within name hn
    obtain ⟨j, hj, hmj, _⟩ := h'.within _ hn'
    cases hj
    omega
  case refine_2 =>
    refine List.forall_mem_append.mpr ⟨fun name hn => ?_, fun name hn => ?_⟩
    case refine_1 =>
      obtain ⟨i, hi, hk, hm⟩ := h.within name hn
      exact ⟨i, hi, hk, hm.trans_le h'.le⟩
    case refine_2 =>
      obtain ⟨i, hi, hm, hn⟩ := h'.within name hn
      exact ⟨i, hi, h.le.trans hm, hn⟩

theorem perm (h : Fresh m n names) (hp : names.Perm names') : Fresh m n names' :=
  ⟨h.le, hp.nodup_iff.mp h.nodup, fun name hn => h.within name (hp.mem_iff.mpr hn)⟩

theorem isScratch (h : Fresh m n names) : ∀ name ∈ names, name.isScratch := by
  intro name hn
  obtain ⟨k, rfl, _⟩ := h.within name hn
  rfl

end Fresh

theorem Emit.fresh_of_freshName {name : Name} {s s' : Progress}
    (h : Emit.freshName.run s = .ok (name, s')) : Fresh s.fresh s'.fresh [name] := by
  cases h
  exact .single

-- Where the second result goes does not depend on what the first one is written to.
def Pending.Precedes (a b : Pending) : Prop :=
  ∀ written ∈ a.destination.target.written, ∀ read ∈ b.destination.target.locates,
    ¬written.Meets read

instance {a b : Pending} : Decidable (a.Precedes b) :=
  inferInstanceAs (Decidable (∀ _ ∈ _, ∀ _ ∈ _, _))

namespace Context

variable {c : Context} {inst : Instruction} {i n : Nat} {s s' : Progress} {ps : List Pending}
variable {dst : Destination} {type : ValueType}

-- One of two results. What it is computed from is read over the components that it is written to.
inductive Result (c : Context) (inst : Instruction) (i : Nat) : Pending → Prop
  | swapped {dst test a yes no type value} (opcode : inst.opcode = .swapc)
      (destination : c.argDestination inst i = .ok (some dst))
      (tested : c.arg inst 2 = .ok test) (first : c.arg inst 3 = .ok a)
      (ifSo : c.arg inst (if i = 0 then 4 else 3) = .ok yes)
      (ifNot : c.arg inst (if i = 0 then 3 else 4) = .ok no)
      (typed : c.naturalType a = .ok type)
      (chosen : c.choose test yes no type dst.components = .ok value) :
      Result c inst i { destination := dst, type, value }
  | computed {t dst args setup value} {s s' : Progress} (typed : inst.opcode.aluTypes? = some t)
      (destination : c.argDestination inst i = .ok (some dst))
      (sources : List.Forall₂ (fun id arg => c.source id t.source dst.components = .ok arg)
        (inst.operands.drop 2) args)
      (made : (c.resultValue inst.opcode (i == 0) args t.result dst.components.length).run s =
        .ok ((setup, value), s')) :
      Result c inst i { destination := dst, type := t.result, setup, value }

-- A result is missing exactly if it is dropped.
inductive Results (c : Context) (inst : Instruction) (i : Nat) : List Pending → Prop
  | dropped (h : c.program.drops inst i = true) : Results c inst i []
  | written {p} (kept : c.program.drops inst i = false) (result : c.Result inst i p) :
      Results c inst i [p]

-- Computes a result under a name, with one lane for each component that is written.
def evaluation (c : Context) (held : Pending × Name) : List Stmt :=
  held.1.setup ++
    [.define (c.vec held.1.type held.1.destination.components.length) held.2 held.1.value]

def writing (c : Context) (held : Pending × Name) : Stmt :=
  c.store held.1.destination (.var held.2) held.1.type

-- How results are written. All are computed before the first one is, unless there is only one that
-- takes no preparation.
inductive Stages (c : Context) : List Pending → List Line → Prop
  | nothing : Stages c [] []
  | assignment {dst type value} :
      Stages c [{ destination := dst, type, value }] [.stmt (c.store dst value type)]
  | block {held : List (Pending × Name)} (some : held ≠ [])
      (several : ∀ result, held.map Prod.fst = [result] → result.setup ≠ [])
      (scratch : ∀ name ∈ held.map Prod.snd, name.isScratch) :
      Stages c (held.map Prod.fst)
        (block .bare ((held.flatMap c.evaluation ++ held.map c.writing).map .stmt))

-- Statements that prepare a result: they use up names, and write nothing else.
structure Prepares (m n : Nat) (setup : List Stmt) : Prop where
  fresh : Fresh m n (setup.flatMap Stmt.declared)
  keeps : ∀ stmt ∈ setup, stmt.KeepsRegisters

theorem Prepares.nil : Prepares n n [] :=
  ⟨.nil (Nat.le_refl n), List.forall_mem_nil _⟩

theorem prepares_outArgument {function : String} {a b : Expr} {m k : Nat} {names : List Name}
    (hf : writesArguments function) (h : Fresh m n names) :
    Prepares m n (c.outArgument function a b type k names) := by
  constructor
  case fresh => simpa [outArgument, Stmt.declared] using h
  case keeps =>
    refine List.forall_mem_cons.mpr ⟨List.forall_mem_nil _, List.forall_mem_singleton.mpr ?_⟩
    intro location hp
    simp only [Stmt.writes, hf, if_true, List.drop_succ_cons, List.drop_zero, List.mem_flatMap,
      List.mem_map] at hp
    obtain ⟨_, ⟨name, hname, rfl⟩, hp⟩ := hp
    rw [List.mem_singleton.mp hp]
    exact h.isScratch name hname

section ResultValue

variable {type : ValueType} {function : String} {a b : Expr} {r : List Stmt × Expr}

theorem prepares_of_wide (hf : writesArguments function)
    (h : (resultValue.wide c type n function a b).run s = .ok (r, s')) :
    Prepares s.fresh s'.fresh r.1 := by
  obtain ⟨_, _, h⟩ := Emit.run_lift_bind_eq_ok.mp h
  obtain ⟨high, t, hhigh, h⟩ := Emit.run_bind_eq_ok.mp h
  obtain ⟨low, t', hlow, h⟩ := Emit.run_bind_eq_ok.mp h
  obtain ⟨rfl, rfl⟩ := Emit.run_pure_eq_ok.mp h
  have hnames := (Emit.fresh_of_freshName hhigh).append (Emit.fresh_of_freshName hlow)
  exact prepares_outArgument hf hnames

theorem prepares_of_carry (hf : writesArguments function)
    (h : (resultValue.carry c type n function a b).run s = .ok (r, s')) :
    Prepares s.fresh s'.fresh r.1 := by
  obtain ⟨_, _, h⟩ := Emit.run_lift_bind_eq_ok.mp h
  obtain ⟨flag, t, hflag, h⟩ := Emit.run_bind_eq_ok.mp h
  obtain ⟨rfl, rfl⟩ := Emit.run_pure_eq_ok.mp h
  exact prepares_outArgument hf (Emit.fresh_of_freshName hflag)

theorem prepares_of_resultValue {op : Opcode} {isFirst : Bool} {args : List Expr}
    (h : (c.resultValue op isFirst args type n).run s = .ok (r, s')) :
    Prepares s.fresh s'.fresh r.1 := by
  have direct {e : Expr} {s : Progress}
      (h : (pure ([], e) : Emit (List Stmt × Expr)).run s = .ok (r, s')) :
      Prepares s.fresh s'.fresh r.1 := by
    obtain ⟨rfl, rfl⟩ := Emit.run_pure_eq_ok.mp h
    exact .nil
  unfold resultValue at h
  split at h
  case h_13 => cases h
  case h_1 | h_2 | h_3 | h_7 | h_8 | h_9 | h_10 => exact direct h
  case h_4 =>
    obtain ⟨_, _, h⟩ := Emit.run_lift_bind_eq_ok.mp h
    exact direct h
  case h_5 | h_6 => exact prepares_of_wide (by decide) h
  case h_11 | h_12 => exact prepares_of_carry (by decide) h

end ResultValue

theorem forall₂_of_run_mapM {α β : Type} {f : α → Except LiftError β} {l : List α} {bs : List β}
    (h : (l.mapM fun a => (liftM (f a) : Emit β)).run s = .ok (bs, s')) :
    List.Forall₂ (fun a b => f a = .ok b) l bs ∧ s = s' := by
  induction l generalizing s bs
  case nil =>
    obtain ⟨rfl, rfl⟩ := Emit.run_pure_eq_ok.mp h
    exact ⟨.nil, rfl⟩
  case cons a l hi =>
    rw [List.mapM_cons] at h
    obtain ⟨b, hb, h⟩ := Emit.run_lift_bind_eq_ok.mp h
    obtain ⟨bs', t, hrest, h⟩ := Emit.run_bind_eq_ok.mp h
    obtain ⟨rfl, rfl⟩ := Emit.run_pure_eq_ok.mp h
    obtain ⟨hbs, rfl⟩ := hi hrest
    exact ⟨.cons hb hbs, rfl⟩

theorem drops_of_argDestination {dst? : Option Destination}
    (h : c.argDestination inst i = .ok dst?) : c.program.drops inst i = dst?.isNone := by
  have hdestined := (gives_argDestination .least).of_ok h
  cases dst?
  case none => exact hdestined
  case some => exact hdestined.left

theorem results_of_twoResult {types : AluTypes} (ht : inst.opcode.aluTypes? = some types)
    (h : (c.twoResult inst types i).run s = .ok (ps, s')) :
    c.Results inst i ps ∧
      Fresh s.fresh s'.fresh ((ps.flatMap Pending.setup).flatMap Stmt.declared) := by
  obtain ⟨dst?, hdst, h⟩ := Emit.run_lift_bind_eq_ok.mp h
  have hdrops := drops_of_argDestination hdst
  cases dst?
  case none =>
    obtain ⟨rfl, rfl⟩ := Emit.run_pure_eq_ok.mp h
    exact ⟨.dropped hdrops, .nil (Nat.le_refl _)⟩
  case some dst =>
    obtain ⟨args, t, hmap, h⟩ := Emit.run_bind_eq_ok.mp h
    obtain ⟨hargs, rfl⟩ := forall₂_of_run_mapM hmap
    obtain ⟨⟨setup, value⟩, t, hvalue, h⟩ := Emit.run_bind_eq_ok.mp h
    obtain ⟨rfl, rfl⟩ := Emit.run_pure_eq_ok.mp h
    refine ⟨.written hdrops (.computed ht hdst hargs hvalue), ?_⟩
    simpa using (prepares_of_resultValue hvalue).fresh

theorem exists_held_of_hold {r : List Stmt × List Name} (h : (c.hold ps).run s = .ok (r, s')) :
    ∃ held : List (Pending × Name), held.map Prod.fst = ps ∧ held.map Prod.snd = r.2 ∧
      held.flatMap c.evaluation = r.1 ∧ Fresh s.fresh s'.fresh r.2 := by
  induction ps generalizing s r
  case nil =>
    obtain ⟨rfl, rfl⟩ := Emit.run_pure_eq_ok.mp h
    exact ⟨[], rfl, rfl, rfl, .nil (Nat.le_refl _)⟩
  case cons p ps hi =>
    obtain ⟨name, t, hname, h⟩ := Emit.run_bind_eq_ok.mp h
    obtain ⟨⟨stmts, names⟩, t', hrest, h⟩ := Emit.run_bind_eq_ok.mp h
    obtain ⟨rfl, rfl⟩ := Emit.run_pure_eq_ok.mp h
    obtain ⟨held, rfl, hnames, hstmts, hfresh⟩ := hi hrest
    refine ⟨(p, name) :: held, rfl, by simp [hnames], by simp [evaluation, hstmts], ?_⟩
    exact (Emit.fresh_of_freshName hname).append hfresh

-- Each name is declared once, where a result is prepared or where it is computed.
theorem perm_declared_evaluation {held : List (Pending × Name)} :
    ((held.flatMap c.evaluation).flatMap Stmt.declared).Perm
      (((held.map Prod.fst).flatMap Pending.setup).flatMap Stmt.declared ++ held.map Prod.snd) := by
  induction held
  case nil => exact .nil
  case cons h held hi =>
    have hdeclared : (c.evaluation h).flatMap Stmt.declared =
        h.1.setup.flatMap Stmt.declared ++ [h.2] := by
      simp [evaluation, Stmt.declared]
    simp only [List.flatMap_cons, List.flatMap_append, List.map_cons, hdeclared, List.append_assoc]
    exact .append_left _ ((hi.cons h.2).trans List.perm_middle.symm)

theorem declared_block {stmts : List Stmt} :
    (block .bare (stmts.map .stmt)).flatMap Line.declared = stmts.flatMap Stmt.declared := by
  simp [block, List.flatMap_map, Line.declared, Line.stmt]

theorem statements_block {stmts : List Stmt} :
    (block .bare (stmts.map .stmt)).flatMap Line.statements = stmts := by
  simp [block, List.flatMap_map, Line.statements, Line.stmt]

theorem stages_of_commit {m : Nat} {lines : List Line}
    (hf : Fresh m s.fresh ((ps.flatMap Pending.setup).flatMap Stmt.declared))
    (h : (c.commit ps).run s = .ok (lines, s')) :
    c.Stages ps lines ∧ Fresh m s'.fresh (lines.flatMap Line.declared) := by
  unfold commit at h
  split at h
  case h_1 =>
    obtain ⟨rfl, rfl⟩ := Emit.run_pure_eq_ok.mp h
    exact ⟨.nothing, hf⟩
  case h_2 =>
    obtain ⟨rfl, rfl⟩ := Emit.run_pure_eq_ok.mp h
    exact ⟨.assignment, hf⟩
  case h_3 hnil hsingle =>
    obtain ⟨⟨stmts, names⟩, t, hhold, h⟩ := Emit.run_bind_eq_ok.mp h
    obtain ⟨rfl, rfl⟩ := Emit.run_pure_eq_ok.mp h
    obtain ⟨held, rfl, rfl, rfl, hnames⟩ := exists_held_of_hold hhold
    have hstores : List.zipWith (fun (p : Pending) name => c.store p.destination (.var name) p.type)
        (held.map Prod.fst) (held.map Prod.snd) = held.map c.writing := by
      simp [List.zipWith_map, List.zipWith_self, writing]
    rw [hstores]
    refine ⟨.block (fun hh => hnil (by simp [hh])) (fun p hp hs => ?_) hnames.isScratch, ?_⟩
    case refine_1 =>
      obtain ⟨dst, type, setup, value⟩ := p
      exact hsingle dst type value (by rw [hp, ← hs])
    case refine_2 =>
      have hwriting : (held.map c.writing).flatMap Stmt.declared = [] :=
        List.flatMap_eq_nil_iff.mpr (List.forall_mem_map.mpr fun _ _ => rfl)
      rw [declared_block, List.flatMap_append, hwriting, List.append_nil]
      exact (hf.append hnames).perm perm_declared_evaluation.symm

-- What an instruction with two results adds to a function.
def Written (c : Context) (inst : Instruction) (m n : Nat) (lines : List Line) : Prop :=
  ∃ first second, c.Results inst 0 first ∧ c.Results inst 1 second ∧
    c.Stages (first ++ second) lines ∧ Fresh m n (lines.flatMap Line.declared)

variable {lines : List Line}

theorem written_of_twoResults {types : AluTypes} (ht : inst.opcode.aluTypes? = some types)
    (h : (c.twoResults inst types).run s = .ok (lines, s')) :
    c.Written inst s.fresh s'.fresh lines := by
  obtain ⟨first, t, hfirst, h⟩ := Emit.run_bind_eq_ok.mp h
  obtain ⟨second, t', hsecond, h⟩ := Emit.run_bind_eq_ok.mp h
  obtain ⟨hfirst, hf⟩ := results_of_twoResult ht hfirst
  obtain ⟨hsecond, hf'⟩ := results_of_twoResult ht hsecond
  refine ⟨first, second, hfirst, hsecond, stages_of_commit ?_ h⟩
  simpa using hf.append hf'

theorem written_of_swapc (hop : inst.opcode = .swapc)
    (h : (c.swapc inst).run s = .ok (lines, s')) : c.Written inst s.fresh s'.fresh lines := by
  obtain ⟨test, htest, h⟩ := Emit.run_lift_bind_eq_ok.mp h
  obtain ⟨a, ha, h⟩ := Emit.run_lift_bind_eq_ok.mp h
  obtain ⟨b, hb, h⟩ := Emit.run_lift_bind_eq_ok.mp h
  obtain ⟨type, htype, h⟩ := Emit.run_lift_bind_eq_ok.mp h
  extract_lets result at h
  have hresult {i : Nat} {yes no : OperandId} {ps : List Pending}
      (hyes : c.arg inst (if i = 0 then 4 else 3) = .ok yes)
      (hno : c.arg inst (if i = 0 then 3 else 4) = .ok no) (h : result i yes no = .ok ps) :
      c.Results inst i ps ∧ ps.flatMap Pending.setup = [] := by
    obtain ⟨dst?, hdst, h⟩ := bind_eq_ok_iff.mp h
    have hdrops := drops_of_argDestination hdst
    cases dst?
    case none =>
      cases h
      exact ⟨.dropped hdrops, rfl⟩
    case some =>
      obtain ⟨value, hvalue, h⟩ := bind_eq_ok_iff.mp h
      cases h
      exact ⟨.written hdrops (.swapped hop hdst htest ha hyes hno htype hvalue), rfl⟩
  obtain ⟨first, hfirst, h⟩ := Emit.run_lift_bind_eq_ok.mp h
  obtain ⟨second, hsecond, h⟩ := Emit.run_lift_bind_eq_ok.mp h
  obtain ⟨hfirst, hsetup⟩ := hresult (i := 0) hb ha hfirst
  obtain ⟨hsecond, hsetup'⟩ := hresult (i := 1) ha hb hsecond
  refine ⟨first, second, hfirst, hsecond, stages_of_commit ?_ h⟩
  rw [List.flatMap_append, hsetup, hsetup']
  exact .nil (Nat.le_refl _)

theorem written_of_step {isLast : Bool} (ht : inst.opcode.hasTwoResults)
    (h : (c.step inst isLast).run s = .ok (lines, s')) : c.Written inst s.fresh s'.fresh lines := by
  obtain ⟨_, _, h⟩ := Emit.run_lift_bind_eq_ok.mp h
  unfold Context.lines instruction at h
  revert ht h
  cases hop : inst.opcode <;> intro ht h
  case swapc => exact written_of_swapc hop h
  case sinCos | udiv | imul | umul | uaddc | usubb =>
    exact written_of_twoResults (by rw [hop]; rfl) h
  all_goals cases ht

-- Destinations are registers, and no names of a block.
def IsRegister (target : Expr) : Prop :=
  ∀ location ∈ target.written, ¬location.name.isScratch

theorem isRegister_of_argDestination (h : c.argDestination inst i = .ok (some dst)) :
    IsRegister dst.target := by
  have hdestined := (gives_argDestination (c.vocabulary inst)).of_ok h
  exact fun location hl => Name.not_isScratch (hdestined.right.sets location hl)

-- A result that can be computed before anything is written.
structure Settled (p : Pending) : Prop where
  keeps  : ∀ stmt ∈ p.setup, stmt.KeepsRegisters
  target : IsRegister p.destination.target

theorem Result.settled {p : Pending} (h : c.Result inst i p) : Settled p := by
  cases h
  case swapped hdst _ _ _ _ _ _ => exact ⟨List.forall_mem_nil _, isRegister_of_argDestination hdst⟩
  case computed hdst _ hvalue =>
    exact ⟨(prepares_of_resultValue hvalue).keeps, isRegister_of_argDestination hdst⟩

theorem Results.settled (h : c.Results inst i ps) : ∀ p ∈ ps, Settled p := by
  cases h
  case dropped => exact List.forall_mem_nil _
  case written h => exact List.forall_mem_singleton.mpr h.settled

theorem writes_store {value : Expr} : (c.store dst value type).writes = dst.target.written := by
  simp only [store, Stmt.writes]
  split
  case isTrue => rfl
  case isFalse => exact Expr.written_pick

theorem mem_reads_store {value : Expr} {read : Location} :
    read ∈ (c.store dst value type).reads ↔ read ∈ dst.target.locates ∨ read ∈ value.reads := by
  have htarget : (if dst.isScalar then dst.target else dst.target.pick dst.components).locates =
      dst.target.locates := by
    split
    case isTrue => rfl
    case isFalse => exact Expr.locates_pick
  have hclamp : (Expr.call "clamp" [value, .floatZero, .floatOne]).reads = value.reads := by
    simp [Expr.reads, Expr.readsOf, Expr.floatZero, Expr.floatOne]
  simp only [store, Stmt.reads, htarget, List.mem_append, cast, reads_cast]
  split
  case isTrue => rw [hclamp]
  case isFalse => rfl

theorem keepsRegisters_evaluation {held : Pending × Name} (h : Settled held.1)
    (hn : held.2.isScratch) : ∀ stmt ∈ c.evaluation held, stmt.KeepsRegisters :=
  have hdefine : ∀ location ∈ [Location.mk held.2 none], location.name.isScratch :=
    List.forall_mem_singleton.mpr hn
  List.forall_mem_append.mpr ⟨h.keeps, List.forall_mem_singleton.mpr hdefine⟩

theorem readsApart_writing_iff {a b : Pending × Name} (ha : Settled a.1) (hb : b.2.isScratch) :
    (c.writing b).ReadsApart (c.writing a).writes ↔ a.1.Precedes b.1 := by
  simp only [Stmt.ReadsApart, writing, writes_store, mem_reads_store]
  constructor
  case mp =>
    intro h location hp read hread
    exact h location hp (ha.target location hp) read (.inl hread)
  case mpr =>
    intro h location hp hregister read hread
    cases hread
    case inl hread => exact h location hp read hread
    case inr hread =>
      -- What is written is not the name that the second result is held under.
      rw [List.mem_singleton.mp hread]
      exact fun hmeets => hregister (hmeets.left ▸ hb)

theorem Stages.readsFirst_iff {results : List Pending} (h : c.Stages results lines)
    (hr : ∀ p ∈ results, Settled p) :
    ReadsFirst (lines.flatMap Line.statements) ↔ results.Pairwise Pending.Precedes := by
  cases h
  case nothing => exact iff_of_true .nil .nil
  case assignment => exact iff_of_true (List.pairwise_singleton _ _) (List.pairwise_singleton _ _)
  case block held _ _ hscratch =>
    have hr := List.forall_mem_map.mp hr
    have hscratch := List.forall_mem_map.mp hscratch
    have hkeeps : ∀ stmt ∈ held.flatMap c.evaluation, stmt.KeepsRegisters :=
      List.forall_mem_flatMap.mpr fun h hh =>
        keepsRegisters_evaluation (hr h hh) (hscratch h hh)
    rw [statements_block, readsFirst_append hkeeps, ReadsFirst]
    rw [List.pairwise_map, List.pairwise_map]
    exact List.Pairwise.iff_of_mem fun ha hb => readsApart_writing_iff (hr _ ha) (hscratch _ hb)

end Context

end ShaderLift
