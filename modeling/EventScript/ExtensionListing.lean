import EventScript.NameScope

namespace EventScript

-- A scope with imports only; paths that name no namespace are passed over.
def NameScope.ofImports (r : Runtime) (paths : List String) : NameScope :=
  (paths.filterMap r.tree.find?).foldl NameScope.importNamespace .empty

namespace Runtime

-- Whether a listing for the receiver shows the method.
def isListed (r : Runtime) (receiver : TypeId) (id : MethodId) : Bool :=
  let m := r.types.method id
  m.isExtension &&
    match m.parameters with
    | first :: _ => r.types.isAssignableOpen first receiver
    | [] => false

-- The extension methods on a receiver, by provider and then in the order of declaration.
def listedExtensions (r : Runtime) (receiver : TypeId) (imports : List String) : List MethodId :=
  let scope := NameScope.ofImports r imports
  let providers := (r.extensions.providers r.types receiver).filter (scope.isTypeVisible r)
  (providers.flatMap fun provider => (r.types.get provider).methods).filter (r.isListed receiver)

end Runtime

end EventScript
