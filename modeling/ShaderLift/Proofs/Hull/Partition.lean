import ShaderLift.Proofs.Decode.Positions
import ShaderLift.Proofs.Hull.Phases

/-!
Splitting a decoded program into phases is a partition: every instruction and every declaration has
one place, which is told by where it stands in the stream.
-/

namespace ShaderLift

namespace Phases

-- The phase that the instruction at a position opens.
def kindAt (insts : List Instruction) (i : Nat) : Option PhaseKind :=
  insts[i]?.bind fun inst => inst.opcode.phaseKind?

-- Where the phases of a kind are opened.
def markersOf (insts : List Instruction) (kind : PhaseKind) : List Nat :=
  (List.range insts.length).filter fun i => kindAt insts i = some kind

-- The first phase is opened here.
def IsFirst (insts : List Instruction) (i : Nat) : Prop :=
  (kindAt insts i).isSome ∧ ∀ j < i, kindAt insts j = none

instance {insts : List Instruction} {i : Nat} : Decidable (IsFirst insts i) :=
  inferInstanceAs (Decidable (_ ∧ _))

-- Something other than a `nop` stands in front of the first phase.
def Stray (insts : List Instruction) : Prop :=
  ∃ first i inst, IsFirst insts first ∧ i < first ∧ insts[i]? = some inst ∧ inst.opcode ≠ .nop

end Phases

namespace Phase

def covers (phase : Phase) (i : Nat) : Bool :=
  phase.start ≤ i && i < phase.stop

theorem covers_iff {phase : Phase} {i : Nat} :
    phase.covers i ↔ phase.start ≤ i ∧ i < phase.stop := by
  simp [covers]

-- A phase runs from its marker up to the next one, or to the end.
structure Fills (insts : List Instruction) (phase : Phase) : Prop where
  opened  : 0 < phase.start ∧ Phases.kindAt insts (phase.start - 1) = some phase.kind
  ordered : phase.start ≤ phase.stop
  bare    : ∀ i, phase.covers i → Phases.kindAt insts i = none
  closed  : phase.stop = insts.length ∨ (Phases.kindAt insts phase.stop).isSome

-- The declaration stands behind the marker of the phase and before the next one.
def Holds (insts : List Instruction) (phase : Phase) (d : Declaration) : Prop :=
  (∀ marker, insts[phase.start - 1]? = some marker → marker.position < d.position) ∧
    ∀ next, insts[phase.stop]? = some next → d.position < next.position

end Phase

namespace Phases

variable {p : Program} {insts : List Instruction} {phases : Phases} {i first : Nat}
variable {kind : PhaseKind}

theorem mem_markers : (i, kind) ∈ markers insts ↔ kindAt insts i = some kind := by
  simp only [markers, kindAt, List.mem_filterMap, Option.bind_eq_some_iff, Prod.exists,
    List.mem_zipIdx_iff_getElem?, Option.map_eq_some_iff, Prod.mk.injEq]
  constructor
  case mp =>
    rintro ⟨inst, j, hj, kind', hkind, rfl, rfl⟩
    exact ⟨inst, hj, hkind⟩
  case mpr =>
    rintro ⟨inst, hi, hkind⟩
    exact ⟨inst, i, hi, kind, hkind, rfl, rfl⟩

theorem lt_length_of_kindAt (h : kindAt insts i = some kind) : i < insts.length := by
  have ⟨_, hi, _⟩ := Option.bind_eq_some_iff.mp h
  exact (List.getElem?_eq_some_iff.mp hi).1

-- The markers of a list are told by their kinds.
theorem map_filter_markers :
    ((markers insts).filter (·.2 = kind)).map (·.1) = markersOf insts kind := by
  have hleft : (((markers insts).filter (·.2 = kind)).map (·.1)).Pairwise (· < ·) :=
    List.pairwise_map.mpr (pairwise_markers.filter _)
  have hright : (markersOf insts kind).Pairwise (· < ·) := List.pairwise_lt_range.filter _
  refine List.Perm.eq_of_pairwise' hleft hright ?_
  refine (List.perm_ext_iff_of_nodup (hleft.imp Nat.ne_of_lt) (hright.imp Nat.ne_of_lt)).mpr ?_
  intro j
  simp only [markersOf, List.mem_map, List.mem_filter, List.mem_range, decide_eq_true_eq]
  constructor
  case mp =>
    rintro ⟨⟨j, kind'⟩, ⟨hm, rfl⟩, rfl⟩
    have hk := mem_markers.mp hm
    exact ⟨lt_length_of_kindAt hk, hk⟩
  case mpr =>
    rintro ⟨_, hk⟩
    exact ⟨(j, kind), ⟨mem_markers.mpr hk, rfl⟩, rfl⟩

-- The list holds the markers from a position on.
structure Lists (insts : List Instruction) (start : Nat) (ms : List (Nat × PhaseKind)) : Prop where
  sorted : ms.Pairwise fun m m' => m.1 < m'.1
  mem    : ∀ i kind, (i, kind) ∈ ms ↔ start ≤ i ∧ kindAt insts i = some kind

theorem lists_markers : Lists insts 0 (markers insts) where
  sorted := pairwise_markers
  mem _ _ := mem_markers.trans (by simp)

namespace Lists

variable {start : Nat} {m : Nat × PhaseKind} {ms : List (Nat × PhaseKind)}

theorem head (h : Lists insts start (m :: ms)) : kindAt insts m.1 = some m.2 :=
  ((h.mem m.1 m.2).mp List.mem_cons_self).2

theorem none_before (h : Lists insts start (m :: ms)) (hi : start ≤ i) (hlt : i < m.1) :
    kindAt insts i = none := by
  refine Option.eq_none_iff_forall_ne_some.mpr fun kind hk => ?_
  cases (h.mem i kind).mpr ⟨hi, hk⟩
  case head => omega
  case tail hm => exact absurd ((List.pairwise_cons.mp h.sorted).1 _ hm) (by simp only; omega)

theorem none_behind (h : Lists insts start []) (hi : start ≤ i) : kindAt insts i = none :=
  Option.eq_none_iff_forall_ne_some.mpr fun kind hk =>
    List.not_mem_nil ((h.mem i kind).mpr ⟨hi, hk⟩)

theorem tail (h : Lists insts start (m :: ms)) : Lists insts (m.1 + 1) ms where
  sorted := (List.pairwise_cons.mp h.sorted).2
  mem i kind := by
    have hlt := (List.pairwise_cons.mp h.sorted).1
    constructor
    case mp =>
      intro hm
      exact ⟨hlt _ hm, ((h.mem i kind).mp (List.mem_cons_of_mem _ hm)).2⟩
    case mpr =>
      rintro ⟨hi, hk⟩
      have hstart : start ≤ m.1 := ((h.mem m.1 m.2).mp List.mem_cons_self).1
      cases (h.mem i kind).mpr ⟨by omega, hk⟩
      case head => exact absurd hi (by simp)
      case tail hm => exact hm

end Lists

section OfMarkers

variable {start : Nat} {m : Nat × PhaseKind} {ms : List (Nat × PhaseKind)} {before : Nat → Bool}

theorem map_start_ofMarkers :
    ((ofMarkers p ms).map fun phase => (phase.start, phase.kind)) =
      ms.map fun m => (m.1 + 1, m.2) := by
  fun_induction ofMarkers p ms
  case case1 => rfl
  case case2 => rfl
  case case3 hi => exact congrArg _ hi

theorem fills_ofMarkers (h : Lists p.instructions start ms) :
    ∀ phase ∈ ofMarkers p ms, phase.Fills p.instructions := by
  fun_induction ofMarkers p ms generalizing start
  case case1 => exact List.forall_mem_nil _
  case case2 marker kind =>
    refine List.forall_mem_singleton.mpr ⟨⟨Nat.succ_pos _, h.head⟩, ?_, ?_, .inl rfl⟩
    · exact lt_length_of_kindAt h.head
    exact fun i hi => h.tail.none_behind (Phase.covers_iff.mp hi).1
  case case3 marker kind next kind' rest hi =>
    have hlt : marker < next := (List.pairwise_cons.mp h.sorted).1 _ List.mem_cons_self
    refine List.forall_mem_cons.mpr ⟨⟨⟨Nat.succ_pos _, h.head⟩, hlt, ?_, .inr ?_⟩, hi h.tail⟩
    case refine_1 =>
      intro i hi
      obtain ⟨hstart, hstop⟩ := Phase.covers_iff.mp hi
      exact h.tail.none_before hstart hstop
    case refine_2 =>
      change (kindAt p.instructions next).isSome
      rw [h.tail.head]
      rfl

theorem countP_covers_ofMarkers (h : Lists p.instructions start (m :: ms))
    (hi : i < p.instructions.length) :
    (ofMarkers p (m :: ms)).countP (·.covers i) =
      if m.1 ≤ i ∧ kindAt p.instructions i = none then 1 else 0 := by
  -- The marker itself is covered by nothing.
  have hne (hk : kindAt p.instructions i = none) : i ≠ m.1 := by
    rintro rfl
    simp [h.head] at hk
  induction ms generalizing start m
  case nil =>
    have hb : m.1 < i → kindAt p.instructions i = none := h.tail.none_behind
    have hm := h.head
    by_cases hlt : m.1 < i
    case pos => simp [ofMarkers, phase, Phase.covers, hlt, hi, hb hlt, hlt.le]
    case neg =>
      have hle : ¬(m.1 ≤ i ∧ kindAt p.instructions i = none) := by
        rintro ⟨hle, hk⟩
        have := hne hk
        omega
      simp only [ofMarkers, phase, Phase.covers, List.countP_singleton, hle, if_false]
      simp
      omega
  case cons next ms ih =>
    have hlt : m.1 < next.1 := (List.pairwise_cons.mp h.sorted).1 _ List.mem_cons_self
    have hhead : (phase p m.2 m.1 next.1).covers i ↔ m.1 < i ∧ i < next.1 := Phase.covers_iff
    have hnext : kindAt p.instructions i = none → i ≠ next.1 := by
      rintro hk rfl
      simp [h.tail.head] at hk
    rw [ofMarkers, List.countP_cons, ih h.tail hnext]
    by_cases hbetween : m.1 < i ∧ i < next.1
    case pos =>
      have hk := h.tail.none_before hbetween.1 hbetween.2
      simp [hhead.mpr hbetween, hk, hbetween.1.le, Nat.not_le.mpr hbetween.2]
    case neg =>
      have hcovers : ¬(phase p m.2 m.1 next.1).covers i := fun hc => hbetween (hhead.mp hc)
      have hiff : (next.1 ≤ i ∧ kindAt p.instructions i = none) ↔
          (m.1 ≤ i ∧ kindAt p.instructions i = none) := by
        refine and_congr_left fun hk => ?_
        have := hne hk
        omega
      simp only [hcovers, hiff]
      simp

theorem mem_declarationsAt {j : Nat} :
    j ∈ declarationsAt p before ↔
      ∃ d, p.declarations[j]? = some d ∧ before d.instructionsBefore := by
  simp only [declarationsAt, List.mem_filterMap, Prod.exists, List.mem_zipIdx_iff_getElem?,
    Option.ite_none_right_eq_some, Option.some.injEq]
  constructor
  case mp =>
    rintro ⟨d, j, hd, hbefore, rfl⟩
    exact ⟨d, hd, hbefore⟩
  case mpr =>
    rintro ⟨d, hd, hbefore⟩
    exact ⟨d, j, hd, hbefore, rfl⟩

theorem declarationsAt_append_perm {before' all : Nat → Bool}
    (hall : ∀ n, all n = (before n || before' n)) (hapart : ∀ n, before n → before' n = false) :
    (declarationsAt p before ++ declarationsAt p before').Perm (declarationsAt p all) := by
  unfold declarationsAt
  induction p.declarations.zipIdx
  case nil => exact .refl _
  case cons d ds hi =>
    have hd := hall d.1.instructionsBefore
    have hd' := hapart d.1.instructionsBefore
    simp only [List.filterMap_cons]
    cases hb : before d.1.instructionsBefore
    case true =>
      simp only [hd' hb, hd, hb, Bool.true_or, if_true, Bool.false_eq_true, if_false,
        List.cons_append]
      exact hi.cons _
    case false =>
      cases hb' : before' d.1.instructionsBefore
      case true =>
        simp only [hd, hb, hb', Bool.or_true, if_true, Bool.false_eq_true, if_false]
        exact List.perm_middle.trans (hi.cons _)
      case false =>
        simp only [hd, hb, hb', Bool.or_false, Bool.false_eq_true, if_false]
        exact hi

theorem declarationsAt_eq_range (h : ∀ d ∈ p.declarations, before d.instructionsBefore) :
    declarationsAt p before = List.range p.declarations.length := by
  have hall : ∀ x ∈ p.declarations.zipIdx,
      (if before x.1.instructionsBefore then some x.2 else none) = some x.2 := by
    intro x hx
    exact if_pos (h x.1 (List.fst_mem_of_mem_zipIdx hx))
  calc declarationsAt p before
    _ = p.declarations.zipIdx.filterMap fun x => some x.2 := List.filterMap_congr hall
    _ = p.declarations.zipIdx.map (·.2) := congrFun List.filterMap_eq_map' _
    _ = List.range p.declarations.length := by
      rw [List.zipIdx_map_snd, List.range_eq_range']

theorem declarations_of_mem_ofMarkers {phase : Phase} (h : phase ∈ ofMarkers p ms) :
    phase.declarations = declarationsAt p fun n => phase.start - 1 < n && n ≤ phase.stop := by
  fun_induction ofMarkers p ms
  case case1 => cases h
  case case2 =>
    cases List.mem_singleton.mp h
    rfl
  case case3 hi =>
    cases h
    case head => rfl
    case tail h => exact hi h

theorem declarations_ofMarkers_perm (h : Lists p.instructions start (m :: ms)) :
    ((ofMarkers p (m :: ms)).flatMap (·.declarations)).Perm
      (declarationsAt p fun n => m.1 < n && n ≤ p.instructions.length) := by
  induction ms generalizing start m
  case nil =>
    rw [ofMarkers, List.flatMap_singleton]
    exact .refl _
  case cons next ms hi =>
    have hlt : m.1 < next.1 := (List.pairwise_cons.mp h.sorted).1 _ List.mem_cons_self
    have hlen := lt_length_of_kindAt h.tail.head
    rw [ofMarkers, List.flatMap_cons]
    refine ((hi h.tail).append_left _).trans ?_
    change (declarationsAt p (fun n => m.1 < n && n ≤ next.1) ++ _).Perm _
    refine declarationsAt_append_perm ?_ ?_
    case refine_1 =>
      intro n
      rw [Bool.eq_iff_iff]
      simp
      omega
    case refine_2 =>
      intro n
      simp
      omega

end OfMarkers

theorem kinds_perm {l : List Phase} :
    (l.filter (·.kind = .controlPoint) ++ l.filter (·.kind = .fork) ++
      l.filter (·.kind = .join)).Perm l := by
  induction l
  case nil => exact .refl _
  case cons phase l hi =>
    cases hk : phase.kind
    case controlPoint => simpa [hk] using hi
    case fork =>
      simp only [List.filter_cons, hk, reduceCtorEq, decide_false, decide_true, if_true, if_false,
        Bool.false_eq_true]
      exact (List.perm_middle.append_right _).trans (hi.cons _)
    case join =>
      simp only [List.filter_cons, hk, reduceCtorEq, decide_false, decide_true, if_true, if_false,
        Bool.false_eq_true]
      exact List.perm_middle.trans (hi.cons _)

-- What a program with markers is split into.
def ofFirst (p : Program) (m : Nat × PhaseKind) (ms : List (Nat × PhaseKind)) : Phases where
  shared := declarationsAt p (· ≤ m.1)
  controlPoint := ((ofMarkers p (m :: ms)).filter (·.kind = .controlPoint)).head?
  forks := (ofMarkers p (m :: ms)).filter (·.kind = .fork)
  joins := (ofMarkers p (m :: ms)).filter (·.kind = .join)

section

variable {m : Nat × PhaseKind} {ms : List (Nat × PhaseKind)}
  (hle : ((ofMarkers p (m :: ms)).filter (·.kind = .controlPoint)).length ≤ 1)

include hle

theorem toList_controlPoint_ofFirst :
    (ofFirst p m ms).controlPoint.toList =
      (ofMarkers p (m :: ms)).filter (·.kind = .controlPoint) := by
  unfold ofFirst
  generalize (ofMarkers p (m :: ms)).filter (·.kind = .controlPoint) = l at hle ⊢
  match l with
  | [] | [_] => rfl
  | _ :: _ :: _ => simp at hle

theorem toList_ofFirst_perm : (ofFirst p m ms).toList.Perm (ofMarkers p (m :: ms)) := by
  rw [toList, toList_controlPoint_ofFirst hle]
  exact kinds_perm

end

section Split

variable {m : Nat × PhaseKind} {ms : List (Nat × PhaseKind)}
  (hm : markers p.instructions = m :: ms)

include hm

theorem split_eq_ok_iff :
    split p = .ok phases ↔ (∀ x ∈ p.instructions.zipIdx.take m.1, x.1.opcode = .nop) ∧
      ((ofMarkers p (m :: ms)).filter (·.kind = .controlPoint)).length ≤ 1 ∧
      phases = ofFirst p m ms := by
  have ⟨first, kind⟩ := m
  unfold split
  rw [hm]
  simp only [bind, Except.bind]
  cases hfind : (p.instructions.zipIdx.take first).find? fun x => x.1.opcode ≠ .nop
  case some x =>
    have hx : x.1.opcode ≠ .nop := by simpa using List.find?_some hfind
    have hmem := List.mem_of_find?_eq_some hfind
    simp only [throw, throwThe, MonadExceptOf.throw, reduceCtorEq, false_iff]
    exact fun ⟨hnop, _⟩ => hx (hnop x hmem)
  case none =>
    have hnop : ∀ x ∈ p.instructions.zipIdx.take first, x.1.opcode = .nop := by
      simpa using List.find?_eq_none.mp hfind
    rw [and_iff_right hnop]
    unfold ofFirst
    dsimp only
    cases hcp : (ofMarkers p ((first, kind) :: ms)).filter (·.kind = .controlPoint)
    case nil => exact ⟨fun h => ⟨by simp, (Except.ok.inj h).symm⟩, fun h => h.2 ▸ rfl⟩
    case cons phase l =>
      cases l
      case nil => exact ⟨fun h => ⟨by simp, (Except.ok.inj h).symm⟩, fun h => h.2 ▸ rfl⟩
      case cons => exact ⟨nofun, fun h => absurd h.1 (by simp)⟩

theorem isFirst_head : IsFirst p.instructions m.1 := by
  have h : Lists p.instructions 0 (m :: ms) := hm ▸ lists_markers
  exact ⟨by rw [h.head]; rfl, fun j hj => h.none_before (Nat.zero_le _) hj⟩

theorem map_start_filter :
    ((ofMarkers p (m :: ms)).filter (·.kind = kind)).map (·.start) =
      (markersOf p.instructions kind).map (· + 1) := by
  have hstarts : ((ofMarkers p (m :: ms)).map fun phase => (phase.start, phase.kind)) =
      (m :: ms).map fun m => (m.1 + 1, m.2) :=
    map_start_ofMarkers
  have h := congrArg (fun l => (l.filter (·.2 = kind)).map (·.1)) hstarts
  rw [← map_filter_markers, hm]
  simp only [List.filter_map, List.map_map] at h ⊢
  exact h

end Split

theorem IsFirst.unique {first' : Nat} (h : IsFirst insts first) (h' : IsFirst insts first') :
    first = first' := by
  by_contra hne
  cases Nat.lt_or_gt_of_ne hne
  case inl hlt => simp [h'.2 first hlt, IsFirst] at h
  case inr hlt => simp [h.2 first' hlt, IsFirst] at h'

theorem markers_of_isFirst (h : IsFirst insts first) :
    ∃ m ms, markers insts = m :: ms := by
  have ⟨kind, hk⟩ := Option.isSome_iff_exists.mp h.1
  exact List.exists_cons_of_ne_nil (List.ne_nil_of_mem (mem_markers.mpr hk))

-- Every instruction and every declaration has its place in the phases.
structure Partition (p : Program) (first : Nat) (phases : Phases) : Prop where
  -- Each declaration is listed once.
  declarations : (phases.shared ++ phases.toList.flatMap Phase.declarations).Perm
    (List.range p.declarations.length)
  -- Only `nop` stands before the first phase.
  leading      : ∀ i inst, p.instructions[i]? = some inst → i < first → inst.opcode = .nop
  -- Behind the first marker an instruction is a marker or belongs to one phase.
  instructions : ∀ i < p.instructions.length, phases.toList.countP (·.covers i) =
    if first ≤ i ∧ kindAt p.instructions i = none then 1 else 0
  -- Phases are listed in the order of their markers.
  controlPoint : phases.controlPoint.toList.map (·.start) =
    (markersOf p.instructions .controlPoint).map (· + 1)
  forks        : phases.forks.map (·.start) = (markersOf p.instructions .fork).map (· + 1)
  joins        : phases.joins.map (·.start) = (markersOf p.instructions .join).map (· + 1)
  fills        : ∀ phase ∈ phases.toList, phase.Fills p.instructions
  -- A declaration belongs to the phase that it stands in.
  owned        : ∀ phase ∈ phases.toList, ∀ j d, p.declarations[j]? = some d →
    (j ∈ phase.declarations ↔ phase.Holds p.instructions d)
  shared       : ∀ j d, p.declarations[j]? = some d →
    (j ∈ phases.shared ↔ ∀ inst, p.instructions[first]? = some inst → d.position < inst.position)

theorem mem_take_zipIdx {n : Nat} {inst : Instruction} :
    (inst, i) ∈ insts.zipIdx.take n ↔ i < n ∧ insts[i]? = some inst := by
  simp only [List.mem_iff_getElem?, List.getElem?_take, List.getElem?_zipIdx, Nat.zero_add,
    Option.ite_none_right_eq_some, Option.map_eq_some_iff, Prod.mk.injEq]
  constructor
  case mp =>
    rintro ⟨_, hlt, _, hi, rfl, rfl⟩
    exact ⟨hlt, hi⟩
  case mpr =>
    rintro ⟨hlt, hi⟩
    exact ⟨i, hlt, inst, hi, rfl, rfl⟩

theorem mem_declarationsAt_iff {before : Nat → Bool} {j : Nat} {d : Declaration}
    (hd : p.declarations[j]? = some d) :
    j ∈ declarationsAt p before ↔ before d.instructionsBefore := by
  rw [mem_declarationsAt, hd]
  simp

section Decoded

variable {tokens : List UInt32} (h : Program.decode tokens = .ok p)

include h

theorem mem_declarations_iff {start : Nat} {ms : List (Nat × PhaseKind)} {phase : Phase} {j : Nat}
    {d : Declaration} (hms : Lists p.instructions start ms) (hphase : phase ∈ ofMarkers p ms)
    (hd : p.declarations[j]? = some d) :
    j ∈ phase.declarations ↔ phase.Holds p.instructions d := by
  have hc := Program.counts_of_decode h d (List.mem_of_getElem? hd)
  have hmarker := lt_length_of_kindAt (fills_ofMarkers hms phase hphase).opened.2
  rw [declarations_of_mem_ofMarkers hphase, mem_declarationsAt_iff hd, Bool.and_eq_true,
    decide_eq_true_eq, decide_eq_true_eq]
  exact and_congr (hc.lt_iff hmarker) hc.le_iff

theorem partition_ofFirst {m : Nat × PhaseKind} {ms : List (Nat × PhaseKind)}
    (hm : markers p.instructions = m :: ms)
    (hnop : ∀ x ∈ p.instructions.zipIdx.take m.1, x.1.opcode = .nop)
    (hle : ((ofMarkers p (m :: ms)).filter (·.kind = .controlPoint)).length ≤ 1) :
    Partition p m.1 (ofFirst p m ms) := by
  have hms : Lists p.instructions 0 (m :: ms) := hm ▸ lists_markers
  have hperm := toList_ofFirst_perm hle
  have hcounts := Program.counts_of_decode h
  refine ⟨?declarations, ?leading, fun i hi => ?instructions, ?controlPoint, map_start_filter hm,
    map_start_filter hm, ?fills, ?owned, fun j d hd => ?shared⟩
  case declarations =>
    have hlen := lt_length_of_kindAt hms.head
    have hrange : declarationsAt p (fun n => n ≤ p.instructions.length) =
        List.range p.declarations.length :=
      declarationsAt_eq_range fun d hd => by simpa using (hcounts d hd).most
    have hphases := (hperm.flatMap_right _).trans (declarations_ofMarkers_perm hms)
    rw [← hrange]
    refine (hphases.append_left _).trans ?_
    change (declarationsAt p (fun n => n ≤ m.1) ++ _).Perm _
    refine declarationsAt_append_perm ?_ ?_
    case refine_1 =>
      intro n
      rw [Bool.eq_iff_iff]
      simp
      omega
    case refine_2 =>
      intro n
      simp
      omega
  case leading =>
    exact fun i inst hi hlt => hnop (inst, i) (mem_take_zipIdx.mpr ⟨hlt, hi⟩)
  case instructions => rw [hperm.countP_eq, countP_covers_ofMarkers hms hi]
  case controlPoint => rw [toList_controlPoint_ofFirst hle, map_start_filter hm]
  case fills => exact fun phase hphase => fills_ofMarkers hms phase (hperm.mem_iff.mp hphase)
  case owned =>
    exact fun phase hphase j d hd => mem_declarations_iff h hms (hperm.mem_iff.mp hphase) hd
  case shared =>
    have hc := hcounts d (List.mem_of_getElem? hd)
    rw [ofFirst, mem_declarationsAt_iff hd, decide_eq_true_eq]
    exact hc.le_iff

end Decoded

theorem stray_iff {m : Nat × PhaseKind} {ms : List (Nat × PhaseKind)}
    (hm : markers p.instructions = m :: ms) :
    Stray p.instructions ↔ ¬∀ x ∈ p.instructions.zipIdx.take m.1, x.1.opcode = .nop := by
  have hfirst := isFirst_head hm
  simp only [not_forall, exists_prop, Prod.exists, mem_take_zipIdx]
  constructor
  case mp =>
    rintro ⟨first, i, inst, hf, hlt, hi, hop⟩
    cases hf.unique hfirst
    exact ⟨inst, i, ⟨hlt, hi⟩, hop⟩
  case mpr =>
    rintro ⟨inst, i, ⟨hlt, hi⟩, hop⟩
    exact ⟨m.1, i, inst, hfirst, hlt, hi, hop⟩

theorem split_fails_iff :
    (∃ e, split p = .error e) ↔
      Stray p.instructions ∨ 2 ≤ (markersOf p.instructions .controlPoint).length := by
  cases hm : markers p.instructions
  case nil =>
    have hok : ∃ phases, split p = .ok phases := by simp [split, hm, pure, Except.pure]
    have hstray : ¬Stray p.instructions := by
      rintro ⟨_, _, _, hf, _⟩
      have ⟨_, _, hcons⟩ := markers_of_isFirst hf
      cases hm.symm.trans hcons
    obtain ⟨phases, hok⟩ := hok
    simp [hok, hstray, ← map_filter_markers, hm]
  case cons m ms =>
    have hlength : ((ofMarkers p (m :: ms)).filter (·.kind = .controlPoint)).length =
        (markersOf p.instructions .controlPoint).length := by
      rw [← List.length_map, map_start_filter hm, List.length_map]
    have hok : (∃ phases, split p = .ok phases) ↔ ¬Stray p.instructions ∧
        (markersOf p.instructions .controlPoint).length ≤ 1 := by
      simp only [split_eq_ok_iff hm, stray_iff hm, hlength, not_not, exists_and_left,
        exists_eq, and_true]
    have herror : (∃ e, split p = .error e) ↔ ¬∃ phases, split p = .ok phases := by
      cases split p <;> simp
    rw [herror, hok, not_and_or, not_not, Nat.not_le]
    exact .rfl

theorem split_partitions {tokens : List UInt32} (h : Program.decode tokens = .ok p) :
    ((∃ e, split p = .error e) ↔
      Stray p.instructions ∨ 2 ≤ (markersOf p.instructions .controlPoint).length) ∧
    ∀ phases first, split p = .ok phases → IsFirst p.instructions first →
      Partition p first phases := by
  refine ⟨split_fails_iff, fun phases first hsplit hfirst => ?_⟩
  have ⟨m, ms, hm⟩ := markers_of_isFirst hfirst
  have ⟨hnop, hle, hphases⟩ := (split_eq_ok_iff hm).mp hsplit
  rw [hphases, hfirst.unique (isFirst_head hm)]
  exact partition_ofFirst h hm hnop hle

-- A `nop` between shared declarations, an empty phase, and a declaration behind the last
-- instruction.
def emptyControlPoint : List UInt32 :=
  [0x30050, 15, 0x01000071, 0x0100003a, 0x02000068, 1, 0x01000072, 0x01000073, 0x02000099, 3,
    0x0100003e, 0x01000074, 0x0100003e, 0x02000068, 2]

theorem split_partitions_emptyControlPoint :
    ∃ p phases, Program.decode emptyControlPoint = .ok p ∧ split p = .ok phases ∧
      IsFirst p.instructions 1 ∧ phases.shared = [0, 1] ∧
      phases.toList = [⟨.controlPoint, 2, 2, [], 1⟩, ⟨.fork, 3, 4, [2], 3⟩, ⟨.join, 5, 6, [3], 1⟩] ∧
      Partition p 1 phases := by
  obtain ⟨p, h, phases, hs, hfirst, hshared, hlist⟩ :
      ∃ p, Program.decode emptyControlPoint = .ok p ∧ ∃ phases, split p = .ok phases ∧
        IsFirst p.instructions 1 ∧ phases.shared = [0, 1] ∧ phases.toList =
          [⟨.controlPoint, 2, 2, [], 1⟩, ⟨.fork, 3, 4, [2], 3⟩, ⟨.join, 5, 6, [3], 1⟩] := by
    decide +kernel
  exact ⟨p, phases, h, hs, hfirst, hshared, hlist, (split_partitions h).2 phases 1 hs hfirst⟩

end Phases

end ShaderLift
