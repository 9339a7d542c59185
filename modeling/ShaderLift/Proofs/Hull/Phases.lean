import ShaderLift.Proofs.Flow.Shape
import ShaderLift.Hull.Phases

/-!
The phases of a hull shader cut no block, as no marker stands inside of one.
-/

namespace ShaderLift

theorem Opcode.role_eq_marker {op : Opcode} {kind : PhaseKind} (h : op.phaseKind? = some kind) :
    op.role = .marker := by
  unfold phaseKind? at h
  split at h
  case h_4 => cases h
  all_goals rfl

def Phase.span (phase : Phase) : Flow.Span :=
  ⟨phase.start, phase.stop⟩

namespace Phases

variable {p : Program} {insts : List Instruction} {flow : Flow} {phases : Phases}

theorem roleAt_of_mem_markers {m : Nat × PhaseKind} (h : m ∈ markers insts) :
    Flow.roleAt insts m.1 = some .marker := by
  have ⟨⟨inst, i⟩, hi, hm⟩ := List.mem_filterMap.mp h
  have ⟨kind, hk, hm⟩ := Option.map_eq_some_iff.mp hm
  subst hm
  have hi := Flow.roleAt_eq_of_getElem? (List.mem_zipIdx_iff_getElem?.mp hi)
  exact hi.trans (congrArg some (Opcode.role_eq_marker hk))

theorem pairwise_markers : (markers insts).Pairwise fun m m' => m.1 < m'.1 := by
  have h : insts.zipIdx.Pairwise fun x y => x.2 < y.2 := by
    refine (List.pairwise_map (f := Prod.snd)).mp ?_
    rw [List.zipIdx_map_snd]
    exact List.pairwise_lt_range'
  refine h.filterMap _ fun x y hxy m hm m' hm' => ?_
  have ⟨_, _, hm⟩ := Option.map_eq_some_iff.mp hm
  have ⟨_, _, hm'⟩ := Option.map_eq_some_iff.mp hm'
  exact hm ▸ hm' ▸ hxy

section

variable (h : Flow.ofInstructions p.instructions p.operands = .ok flow)

include h

theorem whole_phase {kind : PhaseKind} {marker stop : Nat}
    (hm : Flow.roleAt p.instructions marker = some .marker) (hlt : marker < stop)
    (hlen : stop ≤ p.instructions.length) (hd : Flow.depthAt p.instructions stop = 0) :
    (phase p kind marker stop).span.Whole p.instructions where
  ordered := hlt
  within := hlen
  first := by
    simp [Phase.span, phase, Flow.depthAt_succ hm, Flow.depth_of_marker h hm, Flow.Role.shift]
  stop := hd

theorem whole_ofMarkers {ms : List (Nat × PhaseKind)}
    (hrole : ∀ m ∈ ms, Flow.roleAt p.instructions m.1 = some .marker)
    (hsorted : ms.Pairwise fun m m' => m.1 < m'.1) :
    ∀ phase ∈ ofMarkers p ms, phase.span.Whole p.instructions := by
  fun_induction ofMarkers p ms
  case case1 => exact List.forall_mem_nil _
  case case2 marker kind =>
    have hm := List.forall_mem_singleton.mp hrole
    refine List.forall_mem_singleton.mpr ?_
    exact whole_phase h hm (Flow.lt_length_of_roleAt hm) (le_refl _) (Flow.depth_length h)
  case case3 marker kind next kind' rest hi =>
    have ⟨hm, hrole⟩ := List.forall_mem_cons.mp hrole
    have ⟨hlt, hsorted⟩ := List.pairwise_cons.mp hsorted
    have hnext := hrole _ List.mem_cons_self
    refine List.forall_mem_cons.mpr ⟨?_, hi hrole hsorted⟩
    exact whole_phase h hm (hlt _ List.mem_cons_self)
      (Nat.le_of_lt (Flow.lt_length_of_roleAt hnext)) (Flow.depth_of_marker h hnext)

theorem whole_of_split (hs : split p = .ok phases) :
    ∀ phase ∈ phases.toList, phase.span.Whole p.instructions := by
  have hmarkers := whole_ofMarkers h (fun _ => roleAt_of_mem_markers) pairwise_markers
  unfold split at hs
  split at hs
  case h_1 =>
    cases hs
    refine List.forall_mem_singleton.mpr ⟨Nat.zero_le _, le_refl _, Flow.depthAt_zero, ?_⟩
    exact Flow.depth_length h
  case h_2 first kind' rest hm =>
    rw [hm] at hmarkers
    have hkind {kind : PhaseKind} {phase : Phase}
        (hp : phase ∈ (ofMarkers p ((first, kind') :: rest)).filter (·.kind = kind)) :
        phase.span.Whole p.instructions :=
      hmarkers phase (List.mem_of_mem_filter hp)
    simp only [bind, Except.bind] at hs
    split at hs
    case h_1 => cases hs
    case h_2 =>
      split at hs <;> cases hs
      simp only [toList, List.forall_mem_append]
      refine ⟨⟨fun _ hp => ?_, fun _ => hkind⟩, fun _ => hkind⟩
      exact hkind (List.mem_of_head? (Option.mem_toList.mp hp))

end

end Phases

end ShaderLift
