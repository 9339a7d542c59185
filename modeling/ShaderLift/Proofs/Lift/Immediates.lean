import ShaderLift.Container.Program
import ShaderLift.Proofs.Decode.Payload
import ShaderLift.Proofs.Lift.Assembly
import ShaderLift.Proofs.Lift.Usage

/-!
Immediate constants, from the data block that holds them to the rows that a shader lists. Rows stand
where the constants are declared, or are assigned one by one at the start of main, which assigns
nothing else to the constants. As many rows are declared as listed, unless there are none: one row
is declared then.
-/

namespace ShaderLift

open Glsl

namespace Resources

variable {d : Dialect} {p : Program} {r : Resources} {words : List UInt32}

section Collect

theorem immediates_declare {declared : Declared} : (r.declare d p declared).immediates =
    (declared.immediates?.map Word.ofByteList).or r.immediates := by
  cases declared <;> rfl

-- Of several blocks the last one counts.
theorem immediates_foldl_declare {ds : List Declaration} :
    (ds.foldl (fun r decl => r.declare d p decl.declared) r).immediates =
      ((ds.filterMap (·.declared.immediates?)).getLast?.map Word.ofByteList).or r.immediates := by
  induction ds generalizing r
  case nil => rfl
  case cons decl ds hi =>
    rw [List.foldl_cons, hi, immediates_declare, List.filterMap_cons]
    cases decl.declared.immediates?
    case none => rfl
    case some bytes =>
      rw [List.getLast?_cons]
      cases (ds.filterMap (·.declared.immediates?)).getLast? <;> rfl

theorem immediates_of_collect (h : collect d p = .ok r) :
    r.immediates =
      (p.declarations.filterMap (·.declared.immediates?)).getLast?.map Word.ofByteList := by
  obtain ⟨⟨scanned, fetched⟩, hscan, h⟩ := bind_eq_ok_iff.mp h
  cases h
  obtain ⟨_, hfetched⟩ := exists_pairs_of_addFetched scanned fetched
  rw [hfetched]
  refine (scan_keeps (P := fun r' _ => r'.immediates = _) (fun _ _ _ _ _ _ hr hu => ?_)
    (fun _ _ _ _ _ hr hu => ?_) immediates_foldl_declare hscan).trans Option.or_none
  case refine_1 => cases hu <;> exact hr
  case refine_2 => cases hu <;> exact hr

end Collect

section Rows

-- Row `k`: four words from word `4 * k` on, or as many as there are.
theorem rows_eq : rows words =
    (List.range ((words.length + 3) / 4)).map fun k => (words.drop (4 * k)).take 4 := by
  fun_induction rows words
  case case1 a b c e rest hi =>
    have hcount : ((a :: b :: c :: e :: rest).length + 3) / 4 = (rest.length + 3) / 4 + 1 := by
      simp only [List.length_cons]
      omega
    rw [hcount, List.range_succ_eq_map, List.map_cons, List.map_map, hi]
    refine congrArg _ (List.map_congr_left fun k _ => ?_)
    simp [Nat.mul_succ]
  case case2 => rfl
  case case3 short hfour hnil =>
    match short with
    | [] => exact absurd rfl hnil
    | [_] | [_, _] | [_, _, _] => simp
    | a :: b :: c :: e :: rest => exact absurd rfl (hfour a b c e rest)

-- The value of a word in a row.
def immediate (d : Dialect) (word : UInt32) : Expr :=
  if immediatesAreUint d then .lit (.hex word 1)
  else
    match ValueType.guess [word] with
    | .float => literal d word .float
    | _ => literal d (Binary32.ofInt (Word.signed word)) .float

def rowType (d : Dialect) : String :=
  if immediatesAreUint d then "uvec4" else "vec4"

-- Words that are missing in the last row are zero.
def listedRow (d : Dialect) (words : List UInt32) (k : Nat) : Expr :=
  .call (rowType d) ([0, 1, 2, 3].map fun lane => immediate d (words[4 * k + lane]?.getD 0))

def listedRows (d : Dialect) (words : List UInt32) : List Expr :=
  (List.range ((words.length + 3) / 4)).map (listedRow d words)

theorem length_listedRows : (listedRows d words).length = (words.length + 3) / 4 := by
  simp [listedRows]

theorem rowWords_take {k : Nat} : rowWords ((words.drop (4 * k)).take 4) =
    [0, 1, 2, 3].map fun lane => words[4 * k + lane]?.getD 0 := by
  simp [rowWords, List.getElem?_take]

theorem map_uintRow (hd : immediatesAreUint d) : (rows words).map uintRow = listedRows d words := by
  rw [rows_eq, List.map_map]
  refine List.map_congr_left fun k _ => ?_
  simp only [Function.comp_apply, uintRow, rowWords_take, listedRow, rowType, immediate, if_pos hd,
    List.map_map]
  rfl

theorem map_floatRow (hd : ¬immediatesAreUint d) :
    (rows words).map (floatRow d) = listedRows d words := by
  rw [rows_eq, List.map_map]
  refine List.map_congr_left fun k _ => ?_
  simp only [Function.comp_apply, floatRow, rowWords_take, listedRow, rowType, immediate, if_neg hd,
    List.map_map]
  rfl

theorem immediatesDecl_eq (h : r.immediates = some words) :
    immediatesDecl d r = [.immediates (rowType d) (max (listedRows d words).length 1)
      (if d.has .arrayConstructors then some (listedRows d words) else none)] := by
  simp only [immediatesDecl, h, length_listedRows]
  split
  case isTrue hd =>
    have hinline : d.has .arrayConstructors := (Bool.and_eq_true_iff.mp hd).left
    rw [if_pos hinline, map_uintRow hd, rowType, if_pos hd]
  case isFalse hd =>
    rw [map_floatRow hd, rowType, if_neg hd]
    split <;> rfl

-- The assignment of row `k`.
def assignRow (row : Expr × Nat) : Expr × Expr :=
  (.index (.var .immediates) (.int row.2), row.1)

theorem immediatesInit_eq (h : r.immediates = some words) (hd : ¬d.has .arrayConstructors) :
    immediatesInit d r = (listedRows d words).zipIdx.map fun row =>
      .stmt (.assign (assignRow row).1 (assignRow row).2) := by
  have huint : ¬immediatesAreUint d := fun hu => hd (Bool.and_eq_true_iff.mp hu).left
  rw [← map_floatRow huint, List.zipIdx_map, List.map_map]
  simp only [immediatesInit, if_neg hd, h]
  rfl

end Rows

end Resources

namespace Glsl

variable {N : Name → Prop} {name : Name}

theorem Expr.Over.written {e : Expr} (h : e.Over N) : ∀ location ∈ e.written, N location.name := by
  fun_induction Expr.written e
  case case1 => exact List.forall_mem_singleton.mpr h
  case case2 => exact List.forall_mem_singleton.mpr h.left
  case case3 hi => exact hi h
  case case4 => exact List.forall_mem_nil _

-- A variable that is not named is not set.
theorem Line.Over.assignments {line : Line} (h : line.Over N) (hn : ¬N name) :
    line.assignments name = [] := by
  cases line
  case stmts =>
    refine assignments_eq_nil fun target value hs location hl hname => hn (hname ▸ ?_)
    exact (h _ hs).left.written location hl
  all_goals rfl

-- The type, length and rows that immediate constants are declared with.
def Decl.immediates? : Decl → Option (String × Nat × Option (List Expr))
  | immediates type length rows => some (type, length, rows)
  | _ => none

def Functions.main : Functions → Function
  | single _ _ main _ | phased _ _ _ main => main

end Glsl

-- The immediate constants are left alone.
def Spares (lines : List Line) : Prop :=
  ∀ line ∈ lines, line.assignments .immediates = []

namespace Spares

variable {lines lines' : List Line}

theorem append (h : Spares lines) (h' : Spares lines') : Spares (lines ++ lines') :=
  List.forall_mem_append.mpr ⟨h, h'⟩

theorem of_steers (h : Steers lines) : Spares lines :=
  fun line hl => (h line hl).sets _

theorem of_copies (h : Copies lines) : Spares lines :=
  fun line hl => (h line hl).assignments id

theorem flatMap_eq_nil (h : Spares lines) : lines.flatMap (·.assignments .immediates) = [] :=
  List.flatMap_eq_nil_iff.mpr h

end Spares

namespace Context

variable {c : Context} {s s' : Progress} {lines : List Line} {fs : Functions}

theorem spares_of_body {first stop : Nat} (h : (c.body first stop).run s = .ok (lines, s')) :
    Spares lines := by
  refine of_range (R := fun _ _ lines => Spares lines) (fun _ => List.forall_mem_nil _)
    (fun _ _ _ _ _ h h' => h.append h') (fun _ _ _ _ _ _ _ hr => ?_) h
  obtain hsteers | hcalls := (says_step.of_run hr).left
  case inl => exact .of_steers hsteers
  case inr =>
    exact fun line hl => (hcalls line hl).assignments (by simp [vocabulary, Name.isTarget])

theorem spares_epilogue : Spares c.epilogue := by
  unfold epilogue
  split
  case isTrue => exact .of_steers .flush
  case isFalse => exact List.forall_mem_nil _

-- Main begins with what fills its inputs and the immediate constants.
theorem main_of_write (hi : c.interface.Moves) {phases : Option Phases}
    (h : (c.write phases).run s = .ok (fs, s')) :
    fs.main.signature = "void main()" ∧
      ∃ rest, fs.main.body = c.prologue ++ rest ∧ Spares rest := by
  cases phases
  case none =>
    obtain ⟨body, _, _, _, rfl, hbody, _⟩ := exists_of_singleFunctions h
    refine ⟨rfl, body ++ c.epilogue, ?_, (spares_of_body hbody).append spares_epilogue⟩
    exact List.append_assoc ..
  case some phases =>
    obtain ⟨_, _, _, h⟩ := Emit.run_bind_eq_ok.mp h
    obtain ⟨_, _, _, h⟩ := Emit.run_bind_eq_ok.mp h
    obtain ⟨_, _, _, h⟩ := Emit.run_bind_eq_ok.mp h
    obtain ⟨rfl, _⟩ := Emit.run_pure_eq_ok.mp h
    refine ⟨rfl, _, List.append_assoc .., ?_⟩
    have hcall {f : String} (hf : AccessFree f) : Steers [call f []] :=
      .call hf (List.forall_mem_nil _)
    have hsync : Spares ([call "hs_control_point_phase" []] ++ [call "barrier" []]) :=
      .of_steers ((hcall (by decide)).append (hcall (by decide)))
    have hphases : Spares ([call "hs_fork_phases" []] ++ [call "hs_join_phases" []]) :=
      .of_steers ((hcall (by decide)).append (hcall (by decide)))
    have hpoints : Spares c.interface.pointLoad := .of_copies hi.pointLoad.copies
    refine hsync.append (List.forall_mem_append.mpr ⟨?_, List.forall_mem_singleton.mpr rfl⟩)
    exact List.forall_mem_cons.mpr ⟨rfl, hpoints.append hphases⟩

theorem assignments_main (hi : c.interface.Moves) {phases : Option Phases}
    (h : (c.write phases).run s = .ok (fs, s')) :
    fs.main.body.flatMap (·.assignments .immediates) =
      (c.resources.immediatesInit c.dialect).flatMap (·.assignments .immediates) := by
  obtain ⟨_, rest, hbody, hrest⟩ := main_of_write hi h
  have hload := (Spares.of_copies hi.load.copies).flatMap_eq_nil
  rw [hbody, prologue, List.flatMap_append, List.flatMap_append, hload, hrest.flatMap_eq_nil,
    List.nil_append, List.append_nil]

end Context

theorem Resources.MakesDecl.immediates? {d : Dialect} {r : Resources} {decl : Decl}
    (h : r.MakesDecl d decl) : decl.immediates? = none := by
  cases h
  case constants hd =>
    have hconstants := UniformBuffer.isConstants_decls _ hd
    cases decl
    case uniformBlock | uniform => rfl
    all_goals cases hconstants
  case sampler hmade =>
    obtain ⟨_, rfl⟩ := exists_type_of_samplerDecl hmade
    rfl
  case view _ hmade hd =>
    obtain ⟨_, _, _, _, _, rfl⟩ | ⟨_, _, rfl⟩ := image_or_storage_of_uavDecls hmade hd <;> rfl
  case buffer | shared => rfl

theorem Context.filterMap_immediates? {c : Context} {decls : List Decl} (h : c.decls = .ok decls) :
    decls.filterMap Decl.immediates? =
      (c.resources.immediatesDecl c.dialect).filterMap Decl.immediates? := by
  have none {ds : List Decl} (h : ∀ decl ∈ ds, decl.immediates? = none) :
      ds.filterMap Decl.immediates? = [] :=
    List.filterMap_eq_nil_iff.mpr h
  obtain ⟨layouts, resources, hlayouts, hresources, rfl⟩ := exists_parts h
  have hlayouts := none fun decl hd => by
    have hlayout := hlayouts decl hd
    cases decl
    case stageLayout | depthLayout => rfl
    all_goals cases hlayout
  have hresources := none fun decl hd => (Resources.makesDecl_of_mem hresources decl hd).immediates?
  have hvars : (c.interface.vars.map Decl.interface).filterMap Decl.immediates? = [] :=
    none (List.forall_mem_map.mpr fun _ _ => rfl)
  have hregisters : c.registerDecls.filterMap Decl.immediates? = [] := by
    refine none (List.forall_mem_append.mpr ⟨List.forall_mem_append.mpr ⟨?_, ?_⟩, ?_⟩) <;>
      exact List.forall_mem_map.mpr fun _ _ => rfl
  simp only [List.filterMap_append, hlayouts, hresources, hvars, hregisters, List.nil_append,
    List.append_nil]

-- The rows that a shader lists for some words: where the constants are declared if the dialect can
-- write arrays there, and else in main.
structure Glsl.Source.Lists (s : Source) (d : Dialect) (words : List UInt32) (length : Nat) :
    Prop where
  declared : s.decls.filterMap Decl.immediates? = [(Resources.rowType d, length,
    if d.has .arrayConstructors then some (Resources.listedRows d words) else none)]
  main     : s.functions.main.signature = "void main()"
  assigned : s.functions.main.body.flatMap (·.assignments .immediates) =
    if d.has .arrayConstructors then []
    else (Resources.listedRows d words).zipIdx.map Resources.assignRow

namespace Program

variable {p : Program} {o : Options} {s : Shader} {c : Context} {phases : Option Phases}
variable {words tokens : List UInt32}

theorem Lifted.lists (l : p.Lifted o s c phases) (h : c.resources.immediates = some words) :
    s.source.Lists o.dialect words (max (Resources.listedRows o.dialect words).length 1) := by
  obtain ⟨_, hrun, _⟩ := l.written
  have hi := Interface.moves_of_build l.interface
  rw [← l.dialect]
  refine ⟨?_, (Context.main_of_write hi hrun).left, ?_⟩
  case refine_1 =>
    rw [Context.filterMap_immediates? l.decls, Resources.immediatesDecl_eq h]
    rfl
  case refine_2 =>
    rw [Context.assignments_main hi hrun]
    split
    case isTrue hd => simp [Resources.immediatesInit, hd]
    case isFalse hd =>
      rw [Resources.immediatesInit_eq h hd, List.flatMap_map, ← List.flatMap_pure_eq_map]
      rfl

theorem Lifted.lists_nothing (l : p.Lifted o s c phases) (h : c.resources.immediates = none) :
    s.source.decls.filterMap Decl.immediates? = [] := by
  rw [Context.filterMap_immediates? l.decls, Resources.immediatesDecl, h]
  rfl

theorem exists_digits_of_immediate {d : Dialect} (hd : Resources.immediatesAreUint d)
    (word : UInt32) : ∃ digits, (Resources.immediate d word).text = "0x" ++ digits ++ "u" ∧
      CommandLine.readHex digits.toList = .ok word.toNat := by
  refine ⟨hexDigits 1 word.toNat, ?_, CommandLine.readHex_hexDigits ?_⟩
  case refine_1 =>
    rw [Resources.immediate, if_pos hd]
    rfl
  case refine_2 => exact word.toNat_lt.trans (by decide)

theorem decode_lists_immediates (h : decode tokens = .ok p) :
    ∃ length fs, p.Keeps tokens length fs ∧
      p.declarations.filterMap (·.declared.immediates?) =
        (fs.filterMap Frame.payload?).map (·.flatMap Word.bytes) ∧
      ∀ q : Program, q.declarations = p.declarations →
        (∀ d r, Resources.collect d q = .ok r →
          r.immediates = (fs.filterMap Frame.payload?).getLast?) ∧
        ∀ o s, q.lift o = .ok s →
          ((fs.filterMap Frame.payload?).getLast? = none →
            s.source.decls.filterMap Decl.immediates? = []) ∧
          ∀ words, (fs.filterMap Frame.payload?).getLast? = some words →
            ∃ length, s.source.Lists o.dialect words length ∧
              (length = (Resources.listedRows o.dialect words).length ↔ words ≠ []) ∧
              (words = [] → length = 1) ∧
              (Resources.immediatesAreUint o.dialect → ∀ word, ∃ digits,
                (Resources.immediate o.dialect word).text = "0x" ++ digits ++ "u" ∧
                  CommandLine.readHex digits.toList = .ok word.toNat) := by
  obtain ⟨length, fs, hkeeps, hpayloads⟩ := exists_payloads_of_decode h
  have hcollect {q : Program} (hq : q.declarations = p.declarations) {d : Dialect} {r : Resources}
      (hr : Resources.collect d q = .ok r) :
      r.immediates = (fs.filterMap Frame.payload?).getLast? := by
    rw [Resources.immediates_of_collect hr, hq, hpayloads, List.getLast?_map, Option.map_map]
    refine (Option.map_congr fun words _ => ?_).trans Option.map_id'
    exact Word.ofByteList_flatMap_bytes
  refine ⟨length, fs, hkeeps, hpayloads, fun q hq => ⟨fun d r => hcollect hq, fun o s hs => ?_⟩⟩
  obtain ⟨c, phases, l⟩ := exists_lifted hs
  have hresources := hcollect hq l.resources
  refine ⟨fun hnone => l.lists_nothing (hresources.trans hnone), fun words hwords => ?_⟩
  refine ⟨_, l.lists (hresources.trans hwords), ?_, ?_, exists_digits_of_immediate⟩
  case refine_1 =>
    rw [Resources.length_listedRows, ← List.length_pos_iff]
    omega
  case refine_2 =>
    rintro rfl
    rfl

-- Two blocks of immediate constants, and `ret`.
def repeatedPayload : List UInt32 :=
  [0x50, 13, 0x1835, 3, 7, 0x1835, 7, 1, 2, 3, 4, 0xdeadbeef, 0x0100003e]

theorem decode_lists_immediates_repeatedPayload :
    ∃ p s, decode repeatedPayload = .ok p ∧ p.lift {} = .ok s ∧
      s.source.Lists ({} : Options).dialect [1, 2, 3, 4, 0xdeadbeef] 2 ∧
      (Resources.listedRows ({} : Options).dialect [1, 2, 3, 4, 0xdeadbeef]).map Expr.text =
        ["uvec4(0x1u, 0x2u, 0x3u, 0x4u)", "uvec4(0xdeadbeefu, 0x0u, 0x0u, 0x0u)"] := by
  obtain ⟨p, h, ⟨s, hs⟩, r, hr, hwords⟩ : ∃ p, decode repeatedPayload = .ok p ∧
      (∃ s, p.lift {} = .ok s) ∧ ∃ r, Resources.collect ({} : Options).dialect p = .ok r ∧
        r.immediates = some [1, 2, 3, 4, 0xdeadbeef] := by
    decide +kernel
  obtain ⟨length, fs, _, _, hlists⟩ := decode_lists_immediates h
  obtain ⟨hcollect, hlists⟩ := hlists p rfl
  obtain ⟨rows, hlisted, hlength, _⟩ :=
    (hlists {} s hs).right _ ((hcollect _ r hr).symm.trans hwords)
  obtain rfl : rows = 2 := (hlength.mpr (by decide)).trans Resources.length_listedRows
  exact ⟨p, s, h, hs, hlisted, by decide +kernel⟩

end Program

-- A block of immediate constants without any words, and `ret`.
def emptyPayload : List UInt32 :=
  [0x50, 5, 0x1835, 2, 0x0100003e]

theorem Program.declares_unlisted_emptyPayload : ∃ s, Shader.ofTokens emptyPayload {} = .ok s ∧
    (s.source.decls.flatMap Decl.lines = ["const uvec4 icb[1] = uvec4[1](", ");"]) ∧
    s.source.functions.main.text = ["void main() \x7b", "    store_outputs();", "\x7d"] := by
  decide +kernel

end ShaderLift
