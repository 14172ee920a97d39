import EventScript.Bound.Printer
import EventScript.Compile
import EventScript.Json

namespace EventScript

-- A place in a script where an operation is dispatched at run time.
structure DispatchSite where
  span : Span
  descriptor : String
  -- What is converted and how, if the operation is a conversion.
  conversion : Option String
deriving DecidableEq, Repr, Inhabited

-- The outcome of checking a script that was read from a file.
structure CheckReport where
  path : String
  output : CompileOutput
deriving Repr, Inhabited

def Span.toJson (span : Span) : Json := .ofFields [("end", .nat span.stop), ("start", .nat span.start)]

def Diagnostic.toJson (d : Diagnostic) : Json :=
  .ofFields [("code", .nat d.code), ("message", .text d.message), ("phase", .text d.phase.name),
    ("severity", .text d.severity.name), ("span", d.span.toJson)]

namespace DispatchSite

def ofNode? (t : TypeTable) (node : BoundExpr) : Option DispatchSite :=
  node.op.descriptor?.map fun descriptor =>
    ⟨node.span, descriptor.key.render t, node.op.conversion?.map (·.render t)⟩

def toJson (site : DispatchSite) : Json :=
  .ofFields ((site.conversion.map fun c => ("conversion", Json.text c)).toList ++
    [("descriptor", .text site.descriptor), ("span", site.span.toJson)])

def render (site : DispatchSite) : String :=
  let conversion := match site.conversion with
    | some conversion => " => " ++ conversion
    | none => ""
  "  " ++ site.span.render ++ " " ++ site.descriptor ++ conversion

end DispatchSite

namespace CheckReport

def isSuccess (report : CheckReport) : Bool := !report.output.hasErrors

-- The name of the static type of the script's value, if the script bound.
def resultType? (t : TypeTable) (report : CheckReport) : Option String :=
  (report.output.expr.filter fun e => !e.isError).map fun e => t.displayName e.type

-- The dispatch sites, each before those in its operands.
def sites (t : TypeTable) (report : CheckReport) : List DispatchSite :=
  match report.output.expr with
  | some e => e.nodes.filterMap (DispatchSite.ofNode? t)
  | none => []

def toJson (t : TypeTable) (showDispatch : Bool) (report : CheckReport) : Json :=
  let dispatch := if showDispatch then
    [("dispatch", Json.array ((report.sites t).map DispatchSite.toJson))] else []
  .ofFields ([("diagnostics", Json.array (report.output.diagnostics.map Diagnostic.toJson))] ++
    dispatch ++
    [("file", .text report.path), ("success", .bool report.isSuccess),
      ("type", .ofOption ((report.resultType? t).map Json.text))])

-- The verdict in one line.
def verdict (t : TypeTable) (report : CheckReport) : String :=
  match report.resultType? t, report.isSuccess with
  | some type, true => "ok: " ++ type
  | _, _ => s!"failed: {report.output.diagnostics.length} diagnostic(s)"

-- The report in words: the verdict and, if asked for, the dispatch sites.
def lines (t : TypeTable) (showDispatch : Bool) (report : CheckReport) : List String :=
  report.verdict t ::
    if showDispatch then (report.sites t).map DispatchSite.render else []

end CheckReport

end EventScript
