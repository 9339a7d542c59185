import ShaderLift.Proofs.Lift.Assembly
import ShaderLift.Proofs.Lift.Bindings
import ShaderLift.Proofs.Lift.Resolution
import ShaderLift.Proofs.Lift.Usage

/-!
Images are declared for what is done with them. What instructions do with a view is noted when the
resources are collected, and written when the instructions are lifted; the declaration is made from
the first and has to fit the second.
-/

namespace ShaderLift

open Glsl

-- The image that comes first among arguments.
def Glsl.Expr.firstImage? : List Expr → Option UInt32
  | var (.image slot) :: _ => some slot
  | _ => none

namespace Glsl.Source

-- Some function calls another one on an image.
def CallsOn (s : Source) (slot : UInt32) (function : String) : Prop :=
  ∃ f ∈ s.functions.toList, ∃ call ∈ f.calls,
    call.1 = function ∧ Expr.firstImage? call.2 = some slot

instance {s : Source} {slot : UInt32} {function : String} : Decidable (s.CallsOn slot function) :=
  inferInstanceAs (Decidable (∃ _ ∈ _, _))

def Loads (s : Source) (slot : UInt32) : Prop :=
  s.CallsOn slot "imageLoad"

def Stores (s : Source) (slot : UInt32) : Prop :=
  s.CallsOn slot "imageStore"

def Alters (s : Source) (slot : UInt32) : Prop :=
  ∃ name, s.CallsOn slot ("imageAtomic" ++ name)

end Glsl.Source

namespace Glsl

variable {function name : String}

theorem imageAtomic_ne (h : Incomparable "imageAtomic" function) :
    "imageAtomic" ++ name ≠ function := by
  rintro rfl
  exact h.left (by simp)

-- The functions that access images.
def IsImageFunction (function : String) : Prop :=
  function = "imageLoad" ∨ function = "imageStore" ∨ ∃ name, function = "imageAtomic" ++ name

theorem IsImageFunction.not_accessFree (h : IsImageFunction function) : ¬AccessFree function := by
  obtain rfl | rfl | ⟨name, rfl⟩ := h
  case inl | inr.inl => decide
  case inr.inr => exact fun hfree => imageAtomic_ne (hfree "imageAtomic" (by decide)) rfl

theorem IsImageFunction.not_fetch (h : IsImageFunction function) :
    function ∉ ["texelFetch", "texelFetchOffset"] := by
  obtain rfl | rfl | ⟨name, rfl⟩ := h
  case inl | inr.inl => decide
  case inr.inr =>
    have hname {f : String} (hf : Incomparable "imageAtomic" f) : "imageAtomic" ++ name ≠ f :=
      imageAtomic_ne hf
    simp [hname (f := "texelFetch") (by decide), hname (f := "texelFetchOffset") (by decide)]

end Glsl

-- The image format with one channel of 32 bits.
def ValueType.singleChannel : ValueType → String
  | float => "r32f"
  | int => "r32i"
  | uint => "r32ui"

namespace UavAccess

variable {a : UavAccess} {function name : String}

theorem Permits.isImageFunction (h : a.Permits function) : IsImageFunction function :=
  h.imp And.right (Or.imp And.right fun h => h.right.imp fun _ => And.right)

theorem Permits.reads (h : a.Permits "imageLoad") : a.reads := by
  obtain ⟨h, _⟩ | ⟨_, h⟩ | ⟨_, name, _, h⟩ := h
  case inl => exact h
  case inr.inl => exact absurd h (by decide)
  case inr.inr => exact absurd h.symm (imageAtomic_ne (by decide))

theorem Permits.writes (h : a.Permits "imageStore") : a.writes := by
  obtain ⟨_, h⟩ | ⟨h, _⟩ | ⟨_, name, _, h⟩ := h
  case inl => exact absurd h (by decide)
  case inr.inl => exact h
  case inr.inr => exact absurd h.symm (imageAtomic_ne (by decide))

theorem Permits.atomic (h : a.Permits ("imageAtomic" ++ name)) : a.atomic := by
  obtain ⟨_, h⟩ | ⟨_, h⟩ | ⟨h, _⟩ := h
  case inl | inr.inl => exact absurd h (imageAtomic_ne (by decide))
  case inr.inr => exact h

end UavAccess

namespace Uav

variable {u : Uav}

theorem writeonly_notMem (h : u.isRead ∨ u.isAtomic) : "writeonly" ∉ u.accessQualifier := by
  unfold accessQualifier
  revert h
  cases u.isRead <;> cases u.isWritten <;> cases u.isAtomic <;> simp

theorem readonly_notMem (h : u.isWritten ∨ u.isAtomic) : "readonly" ∉ u.accessQualifier := by
  unfold accessQualifier
  revert h
  cases u.isRead <;> cases u.isWritten <;> cases u.isAtomic <;> simp

theorem format_eq_singleChannel (h : u.isRead ∧ u.isWritten ∨ u.isAtomic) :
    u.format = u.valueType.singleChannel := by
  have hone : (u.isAtomic || u.isRead && u.isWritten) = true := by
    simpa [or_comm] using h
  simp only [format, hone, if_true]
  cases u.valueType <;> rfl

end Uav

-- What the declaration of an image says, if it is made from a view.
structure Uav.Declares (u : Uav) (format : String) (qualifiers : List String) (type : String) :
    Prop where
  format     : format = u.format
  qualifiers : ∀ q ∈ qualifiers, q ∈ u.accessQualifier ∨ q ∈ ["coherent", "highp"]
  type       : ∃ dimension, type = u.valueType.letter ++ "image" ++ dimension

namespace Resources

variable {d : Dialect} {r : Resources} {decls : List Decl} {slot : UInt32} {binding : Nat}
variable {visible : Bool} {format type : String} {qualifiers : List String}

theorem declares_of_uavDecls {slot' : UInt32} {u : Uav} (h : r.uavDecls d slot' u = .ok decls)
    (hd : .image slot binding visible format qualifiers type ∈ decls) :
    slot = slot' ∧ u.Declares format qualifiers type := by
  unfold uavDecls at h
  extract_lets coherent counter at h
  have hcounter : Decl.image slot binding visible format qualifiers type ∉ counter := by
    simp only [counter]
    split <;> simp [storageDecl]
  split at h
  case h_1 =>
    obtain ⟨_, _, h⟩ := bind_eq_ok_iff.mp h
    split at h
    case h_2 => cases h
    case h_1 dimension _ =>
      cases h
      obtain hd | hd := List.mem_cons.mp hd
      case inr => exact absurd hd hcounter
      case inl =>
        cases hd
        refine ⟨rfl, rfl, fun q hq => ?_, dimension, rfl⟩
        have hcoherent : q ∈ coherent → q = "coherent" := by
          simp only [coherent]
          split <;> simp
        have hprecision : q ∈ precision d → q = "highp" := by
          unfold precision
          split <;> simp
        simp only [List.mem_append] at hq
        obtain (hq | hq) | hq := hq
        case inl.inl => simp [hcoherent hq]
        case inl.inr => exact .inl hq
        case inr => simp [hprecision hq]
  case h_2 =>
    obtain ⟨_, _, h⟩ := bind_eq_ok_iff.mp h
    cases h
    simp [storageDecl, hcounter] at hd

theorem exists_declares_of_decls (h : r.decls d = .ok decls)
    (hd : .image slot binding visible format qualifiers type ∈ decls) :
    ∃ u, (slot, u) ∈ r.uavs.entries ∧ u.Declares format qualifiers type := by
  cases makesDecl_of_mem h _ hd
  case constants hd => cases UniformBuffer.isConstants_decls _ hd
  case sampler hmade =>
    obtain ⟨_, hd⟩ := exists_type_of_samplerDecl hmade
    cases hd
  case view hu hmade hd =>
    obtain ⟨rfl, hdeclares⟩ := declares_of_uavDecls hmade hd
    exact ⟨_, hu, hdeclares⟩

end Resources

namespace Program

variable {p : Program} {o : Options} {s : Shader} {c : Context} {phases : Option Phases}
variable {slot : UInt32} {function : String}

-- Each access to an image is one that its view shows.
theorem Lifted.exists_shows (l : p.Lifted o s c phases) {f : Function} {call : String × List Expr}
    (hf : f ∈ s.source.functions.toList) (hcall : call ∈ f.calls) (hi : IsImageFunction call.1) :
    ∃ slot u a, Expr.firstImage? call.2 = some slot ∧ c.resources.uavs.get? slot = some u ∧
      u.isTyped ∧ u.Shows a ∧ a.Permits call.1 := by
  obtain hfree | ⟨inst, hinst, haccess⟩ := l.accesses f hf call hcall
  case inl => exact absurd hfree hi.not_accessFree
  case inr =>
    obtain ⟨function, args⟩ := call
    obtain ⟨hfetch, _⟩ | ⟨haccess, hpermits, hnames, huav, htyped⟩ := haccess
    case fetch => exact absurd hfetch hi.not_fetch
    case image =>
      have hshows := Resources.shows_of_collect l.resources hinst haccess hnames huav
      exact ⟨_, _, _, rfl, huav, htyped, hshows, hpermits⟩

section Views

variable {u : Uav} (l : p.Lifted o s c phases) (hu : c.resources.uavs.get? slot = some u)

include l hu

theorem Lifted.exists_permits (hi : IsImageFunction function)
    (hcall : s.source.CallsOn slot function) : ∃ a, u.Shows a ∧ a.Permits function := by
  obtain ⟨f, hf, call, hcall, rfl, hslot⟩ := hcall
  obtain ⟨_, v, a, hfirst, hv, _, hshows, hpermits⟩ := l.exists_shows hf hcall hi
  cases hslot.symm.trans hfirst
  cases hu.symm.trans hv
  exact ⟨a, hshows, hpermits⟩

theorem Lifted.isRead_of_loads (h : s.source.Loads slot) : u.isRead := by
  obtain ⟨a, hshows, hpermits⟩ := l.exists_permits hu (.inl rfl) h
  exact hshows.reads hpermits.reads

theorem Lifted.isWritten_of_stores (h : s.source.Stores slot) : u.isWritten := by
  obtain ⟨a, hshows, hpermits⟩ := l.exists_permits hu (.inr (.inl rfl)) h
  exact hshows.writes hpermits.writes

theorem Lifted.isAtomic_of_alters (h : s.source.Alters slot) : u.isAtomic := by
  obtain ⟨name, h⟩ := h
  obtain ⟨a, hshows, hpermits⟩ := l.exists_permits hu (.inr (.inr ⟨name, rfl⟩)) h
  exact hshows.atomic hpermits.atomic

end Views

theorem Lifted.exists_image (l : p.Lifted o s c phases) {u : Uav}
    (hu : c.resources.uavs.get? slot = some u) (ht : u.isTyped) :
    ∃ binding visible format qualifiers type,
      .image slot binding visible format qualifiers type ∈ s.source.decls := by
  obtain ⟨resources, hresources, hmem, _⟩ := l.exists_resources
  obtain ⟨views, ⟨main, hviews, hmain⟩, hd⟩ := Resources.exists_mem_decls_of_uav hresources hu
  rw [if_pos ht] at hmain
  obtain ⟨qualifiers, type, rfl⟩ := hmain
  exact ⟨_, _, _, _, _, hmem _ (hd _ (hviews ▸ List.mem_cons_self))⟩

theorem Lifted.exists_declares (l : p.Lifted o s c phases) {binding : Nat} {visible : Bool}
    {format type : String} {qualifiers : List String}
    (hd : .image slot binding visible format qualifiers type ∈ s.source.decls) :
    ∃ u, c.resources.uavs.get? slot = some u ∧ u.Declares format qualifiers type := by
  obtain ⟨resources, hresources, _, hinternal⟩ := l.exists_resourceDecls
  obtain hd | hd := hinternal _ hd
  case inr => cases hd
  case inl =>
    obtain ⟨u, hu, hdeclares⟩ := Resources.exists_declares_of_decls hresources hd
    exact ⟨u, (Resources.ordered_of_collect l.resources).uavs.get?_eq_some hu, hdeclares⟩

theorem lift_qualifies_images (h : p.lift o = .ok s) :
    (∀ f ∈ s.source.functions.toList, ∀ call ∈ f.calls, IsImageFunction call.1 →
      ∃ slot binding visible format qualifiers type, Expr.firstImage? call.2 = some slot ∧
        .image slot binding visible format qualifiers type ∈ s.source.decls) ∧
    ∀ slot binding visible format qualifiers type,
      .image slot binding visible format qualifiers type ∈ s.source.decls →
        (s.source.Loads slot ∨ s.source.Alters slot → "writeonly" ∉ qualifiers) ∧
        (s.source.Stores slot ∨ s.source.Alters slot → "readonly" ∉ qualifiers) ∧
        ∃ (t : ValueType) (dimension : String), type = t.letter ++ "image" ++ dimension ∧
          (s.source.Loads slot ∧ s.source.Stores slot ∨ s.source.Alters slot →
            format = t.singleChannel) := by
  obtain ⟨c, phases, l⟩ := exists_lifted h
  refine ⟨fun f hf call hcall hi => ?_, fun slot binding visible format qualifiers type hd => ?_⟩
  case refine_1 =>
    obtain ⟨slot, u, _, hfirst, hu, htyped, _⟩ := l.exists_shows hf hcall hi
    obtain ⟨_, _, _, _, _, hd⟩ := l.exists_image hu htyped
    exact ⟨slot, _, _, _, _, _, hfirst, hd⟩
  case refine_2 =>
    obtain ⟨u, hu, hdeclares⟩ := l.exists_declares hd
    have hloads := l.isRead_of_loads hu
    have hstores := l.isWritten_of_stores hu
    have halters := l.isAtomic_of_alters hu
    have hqualifier {q : String} (hq : q ∉ ["coherent", "highp"]) (hu : q ∉ u.accessQualifier) :
        q ∉ qualifiers := fun h => (hdeclares.qualifiers q h).elim hu hq
    obtain ⟨dimension, htype⟩ := hdeclares.type
    refine ⟨fun h => ?_, fun h => ?_, u.valueType, dimension, htype, fun h => ?_⟩
    case refine_1 => exact hqualifier (by decide) (Uav.writeonly_notMem (h.imp hloads halters))
    case refine_2 => exact hqualifier (by decide) (Uav.readonly_notMem (h.imp hstores halters))
    case refine_3 =>
      rw [hdeclares.format]
      exact Uav.format_eq_singleChannel (h.imp (And.imp hloads hstores) halters)

-- An image that is both read and written, and one that is altered.
def sharedImages : Program where
  declarations :=
    [.uavTyped 0 .texture2D ⟨.float, .float, .float, .float⟩ false,
      .uavTyped 1 .buffer ⟨.uint, .uint, .uint, .uint⟩ true].map (⟨·, 0, 0⟩)
  instructions :=
    [⟨.ldUavTyped, .alu false 0, [0, 1, 2], 0⟩, ⟨.storeUavTyped, .alu false 0, [2, 1, 1], 0⟩,
      ⟨.immAtomicIadd, .alu false 0, [0, 3, 1, 1], 0⟩, ⟨.ret, .flow, [], 0⟩]
  operands :=
    #[{ register := .temp, selection := .mask .xyzw, indices := [.imm 0] },
      { register := .temp, indices := [.imm 0] },
      { register := .unorderedAccessView, indices := [.imm 0] },
      { register := .unorderedAccessView, indices := [.imm 1] }]

theorem lift_qualifies_images_sharedImages :
    ∃ s, sharedImages.lift { version := .gl43 } = .ok s ∧
      (s.source.Loads 0 ∧ s.source.Stores 0 ∧ s.source.Alters 1) ∧
      (∃ binding visible format qualifiers type,
        .image 0 binding visible format qualifiers type ∈ s.source.decls ∧
        "writeonly" ∉ qualifiers ∧ "readonly" ∉ qualifiers ∧
        ∃ (t : ValueType) (dimension : String), type = t.letter ++ "image" ++ dimension ∧
          format = t.singleChannel) ∧
      ∃ binding visible format qualifiers type,
        .image 1 binding visible format qualifiers type ∈ s.source.decls ∧
        "writeonly" ∉ qualifiers ∧ "readonly" ∉ qualifiers ∧
        ∃ (t : ValueType) (dimension : String), type = t.letter ++ "image" ++ dimension ∧
          format = t.singleChannel := by
  obtain ⟨s, h, hload, hstore, hatomic⟩ : ∃ s, sharedImages.lift { version := .gl43 } = .ok s ∧
      s.source.CallsOn 0 "imageLoad" ∧ s.source.CallsOn 0 "imageStore" ∧
        s.source.CallsOn 1 ("imageAtomic" ++ "Add") := by
    decide +kernel
  have halters : s.source.Alters 1 := ⟨"Add", hatomic⟩
  obtain ⟨hcalls, hdecls⟩ := lift_qualifies_images h
  refine ⟨s, h, ⟨hload, hstore, halters⟩, ?_, ?_⟩
  case refine_1 =>
    obtain ⟨f, hf, call, hcall, hname, hslot⟩ := id hload
    obtain ⟨_, _, _, _, _, _, hfirst, hd⟩ := hcalls f hf call hcall (.inl hname)
    cases hslot.symm.trans hfirst
    obtain ⟨hw, hr, t, dimension, htype, hformat⟩ := hdecls _ _ _ _ _ _ hd
    exact ⟨_, _, _, _, _, hd, hw (.inl hload), hr (.inl hstore), t, dimension, htype,
      hformat (.inl ⟨hload, hstore⟩)⟩
  case refine_2 =>
    obtain ⟨f, hf, call, hcall, hname, hslot⟩ := hatomic
    obtain ⟨_, _, _, _, _, _, hfirst, hd⟩ := hcalls f hf call hcall (.inr (.inr ⟨_, hname⟩))
    cases hslot.symm.trans hfirst
    obtain ⟨hw, hr, t, dimension, htype, hformat⟩ := hdecls _ _ _ _ _ _ hd
    exact ⟨_, _, _, _, _, hd, hw (.inr halters), hr (.inr halters), t, dimension, htype,
      hformat (.inr halters)⟩

end Program

end ShaderLift
