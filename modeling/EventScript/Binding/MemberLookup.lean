import EventScript.Binding.Compiling

namespace EventScript.Binding

variable (scope : BindingScope)

structure FoundProperty where
  declaring : TypeId
  type : TypeId
deriving DecidableEq, Repr

-- The property of a type, its base types or its interfaces, as seen from where it is found.
def property? (t : TypeTable) (type : TypeId) (name : String) (isStatic : Bool) :
    Option FoundProperty :=
  (t.lineage type).findSome? fun current =>
    let definition := t.openDefinition current
    let found := (t.get definition).properties.find? fun p => p.name = name && p.isStatic = isStatic
    found.map fun p => ⟨definition, t.seenFrom p.type current⟩

def methodsNamed (type : TypeId) (name : String) (isStatic : Bool) : Compiling (List MethodId) := do
  let methods ← Compiling.search (MemberCache.lookup scope.types type name)
  return methods.filter fun id =>
    let m := scope.types.method id
    m.isPublic && m.isStatic = isStatic

-- The type whose parameters a method is written in: that of its receiver or its own.
def genericOwner? (t : TypeTable) (m : MethodDef) : Option TypeId :=
  if m.isExtension then m.parameters.head?.map t.openDefinition else some m.declaring

-- The instance in the lineage of the receiver that supplies the type arguments of a method.
def genericContext? (t : TypeTable) (method : MethodId) (receiver : Option TypeId) :
    Option TypeId := do
  let owner ← genericOwner? t (t.method method)
  (t.lineage (← receiver)).find? fun candidate => t.openDefinition candidate = owner

-- The type as seen from a context, if there is one.
def seenIn (t : TypeTable) (context : Option TypeId) (type : TypeId) : TypeId :=
  match context with
  | some «instance» => t.seenFrom type «instance»
  | none => type

def parameterTypes (t : TypeTable) (method : MethodId) (receiver : Option TypeId) : List TypeId :=
  (t.method method).parameters.map (seenIn t (genericContext? t method receiver))

def returnType (t : TypeTable) (method : MethodId) (receiver : Option TypeId) : TypeId :=
  seenIn t (genericContext? t method receiver) (t.method method).returns

end EventScript.Binding
