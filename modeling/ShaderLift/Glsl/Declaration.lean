import ShaderLift.Glsl.Statement

/-!
Declarations at the head of a shader.
-/

namespace ShaderLift.Glsl

structure Declarator where
  type   : String
  name   : String
  length : Option UInt32 := none
  deriving DecidableEq, Repr

def subscript (length : UInt32) : String :=
  "[" ++ decimal length ++ "]"

def Declarator.text (d : Declarator) : String :=
  d.type ++ " " ++ d.name ++ (d.length.map subscript).getD ""

inductive BlockMember where
  -- Fills word `word` of the constant buffer in `slot`.
  | padding (slot : UInt32) (word : Nat)
  | member (offset : Option UInt32) (declarator : Declarator)
  deriving DecidableEq, Repr

def BlockMember.text : BlockMember → String
  | padding slot word => "float _pad" ++ decimal slot ++ "_" ++ toString word ++ ";"
  | member none d => d.text ++ ";"
  | member (some offset) d => "layout(offset = " ++ decimal offset ++ ") " ++ d.text ++ ";"

structure InterfaceVariable where
  qualifiers : List String
  type       : String
  name       : String
  isArray    : Bool := false
  deriving DecidableEq, Repr

def InterfaceVariable.text (v : InterfaceVariable) : String :=
  joinWith " " (v.qualifiers ++ [v.type, v.name]) ++ if v.isArray then "[];" else ";"

inductive Storage where
  | resource (slot : UInt32)
  | uav (slot : UInt32)
  -- The hidden counter of a structured buffer.
  | counter (slot : UInt32)
  deriving DecidableEq, Repr

namespace Storage

def blockName : Storage → String
  | resource slot => "t" ++ decimal slot ++ "_buffer"
  | uav slot => "u" ++ decimal slot ++ "_buffer"
  | counter slot => "u" ++ decimal slot ++ "_counter_buffer"

def content : Storage → String
  | resource slot => "uint " ++ (Name.resourceData slot).text ++ "[];"
  | uav slot => "uint " ++ (Name.uavData slot).text ++ "[];"
  | counter slot => "uint " ++ (Name.counter slot).text ++ ";"

end Storage

inductive Decl where
  | stageLayout (properties : List String) (direction : String)
  | depthLayout (property : String)
  | uniformBlock (slot : UInt32) (showBinding : Bool) (name : String) (members : List BlockMember)
  -- A constant that is in no block, and where it lies in its constant buffer.
  | uniform (slot offset : UInt32) (declarator : Declarator)
  | sampler (unit : Nat) (showBinding : Bool) (precision : List String) (type : String)
      (key : SamplerKey)
  | storage (storage : Storage) (binding : Nat) (showBinding : Bool) (qualifiers : List String)
  | image (slot : UInt32) (binding : Nat) (showBinding : Bool) (format : String)
      (qualifiers : List String) (type : String)
  | shared (slot length : UInt32)
  | interface (var : InterfaceVariable)
  -- Constant rows of four numbers; without rows the array is filled at run time.
  | immediates (type : String) (length : Nat) (rows : Option (List Expr))
  | temp (type : String) (register : UInt32)
  | indexableTemp (register length : UInt32)
  | file (file : RegisterFile) (length : UInt32)
  deriving Repr

def commaLines : List String → List String
  | [] => []
  | [item] => [item]
  | item :: items => (item ++ ",") :: commaLines items

namespace Decl

def layoutText (properties : List String) : String :=
  "layout(" ++ joinWith ", " properties ++ ")"

def bindingProperty (visible : Bool) (binding : Nat) : List String :=
  if visible then ["binding = " ++ toString binding] else []

def lines : Decl → List String
  | stageLayout properties direction => [layoutText properties ++ " " ++ direction ++ ";"]
  | depthLayout property => [layoutText [property] ++ " out float gl_FragDepth;"]
  | uniformBlock slot showBinding name members =>
    let layout := layoutText ("std140" :: bindingProperty showBinding slot.toNat)
    [layout ++ " uniform " ++ name ++ " \x7b"] ++ members.map (indent 1 ·.text) ++ ["\x7d;"]
  | uniform _ _ declarator => ["uniform " ++ declarator.text ++ ";"]
  | sampler unit showBinding precision type key =>
    let layout := if showBinding then [layoutText (bindingProperty true unit)] else []
    [joinWith " " (layout ++ ["uniform"] ++ precision ++ [type, key.name]) ++ ";"]
  | storage s binding showBinding qualifiers =>
    let layout := layoutText ("std430" :: bindingProperty showBinding binding)
    [joinWith " " (layout :: qualifiers ++ ["buffer", s.blockName, "\x7b", s.content, "\x7d;"])]
  | image slot binding showBinding format qualifiers type =>
    let layout := layoutText (format :: bindingProperty showBinding binding)
    [joinWith " " (layout :: "uniform" :: qualifiers ++ [type, (Name.image slot).text]) ++ ";"]
  | shared slot length => ["shared uint " ++ (Name.shared slot).text ++ subscript length ++ ";"]
  | interface v => [v.text]
  | immediates type length rows =>
    let array := "[" ++ toString length ++ "]"
    match rows with
    | none => [type ++ " icb" ++ array ++ ";"]
    | some rows =>
      ["const " ++ type ++ " icb" ++ array ++ " = " ++ type ++ array ++ "("] ++
        (commaLines (rows.map Expr.text)).map (indent 1) ++ [");"]
  | temp type register => [type ++ " " ++ (Name.temp register).text ++ ";"]
  | indexableTemp register length =>
    ["vec4 " ++ (Name.indexableTemp register).text ++ subscript length ++ ";"]
  | file f length => ["vec4 " ++ f.name ++ subscript length ++ ";"]

end Decl

structure SamplerUnit where
  key  : SamplerKey
  unit : Nat
  deriving DecidableEq, Repr

structure HostBindings where
  uniformBlocks  : List (String × UInt32) := []
  -- Constants in no block, with the slot of their constant buffer and their offset in it.
  uniforms       : List (String × UInt32 × UInt32) := []
  samplers       : List SamplerUnit := []
  storageBuffers : List (String × Nat) := []
  images         : List (String × Nat) := []
  attributes     : List (String × UInt32) := []
  fragOutputs    : List (String × UInt32) := []
  deriving DecidableEq, Repr

namespace HostBindings

def ofDecls (decls : List Decl) : HostBindings where
  uniformBlocks := decls.filterMap fun
    | .uniformBlock slot _ name _ => some (name, slot)
    | _ => none
  uniforms := decls.filterMap fun
    | .uniform slot offset d => some (d.name, slot, offset)
    | _ => none
  samplers := decls.filterMap fun
    | .sampler unit _ _ _ key => some ⟨key, unit⟩
    | _ => none
  storageBuffers := decls.filterMap fun
    | .storage s binding _ _ => some (s.blockName, binding)
    | _ => none
  images := decls.filterMap fun
    | .image slot binding _ _ _ _ => some ((Name.image slot).text, binding)
    | _ => none

end HostBindings

end ShaderLift.Glsl
