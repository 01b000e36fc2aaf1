import AmbientBundle.Syntax.Tree
/-!
The written form of a module. Nothing of a source layout is kept: every statement and every member
stands on a line of its own, two blanks deeper than what encloses it. The functions take that depth.
-/
namespace AmbientBundle.Syntax

def newline (depth : Nat) : String := "\n" ++ String.ofList (List.replicate (2 * depth) ' ')

def commas (parts : List String) : String := ", ".intercalate parts

/-- Braces around lines that stand one step deeper; `sep` ends every line but the last. -/
def bracedLines (depth : Nat) (sep : String) (lines : List String) : String :=
  "\x7b" ++ (sep.intercalate (lines.map (newline (depth + 1) ++ ·))) ++ newline depth ++ "\x7d"

def escapeChar (quote : Char) (next : Option Char) (c : Char) : String :=
  if c == quote then "\\" ++ String.singleton c
  else match c with
    | '\\' => "\\\\"
    | '\n' => "\\n"
    | '\r' => "\\r"
    | '\x08' => "\\b"
    | '\x0b' => "\\v"
    | '\x0c' => "\\f"
    | '\t' => "\t"
    | '\x00' => if next.any Char.isDigit then "\\x00" else "\\0"
    | '\u2028' => "\\u2028"
    | '\u2029' => "\\u2029"
    | '\ufeff' => "\\uFEFF"
    | c =>
      if c.toNat < 16 then "\\x0" ++ String.ofList (Nat.toDigits 16 c.toNat)
      else if c.toNat < 32 then "\\x" ++ String.ofList (Nat.toDigits 16 c.toNat)
      else String.singleton c

def escapeChars (quote : Char) : List Char → String
  | [] => ""
  | c :: cs => escapeChar quote cs.head? c ++ escapeChars quote cs

/-- A made-up string stands in double quotes unless it holds more of them than of single ones. -/
def quoted (text : String) : String :=
  let cs := text.toList
  let quote := if cs.count '\'' < cs.count '"' then '\'' else '"'
  String.singleton quote ++ escapeChars quote cs ++ String.singleton quote

def StrLit.print (l : StrLit) : String := l.raw.getD (quoted l.value)

def EntityName.print (n : EntityName) : String := ".".intercalate (n.head :: n.tail)

def AttrKey.print : AttrKey → String
  | .word t => t
  | .str l => l.print

/-- Attributes as an object literal. -/
def printAttributes (depth : Nat) (attrs : Attributes) : String :=
  if attrs.isEmpty then "\x7b\x7d"
  else bracedLines depth "," (attrs.map fun (k, v) => k.print ++ ": " ++ v.print)

def TypeOperator.print : TypeOperator → String
  | .keyof => "keyof "
  | .unique => "unique "
  | .readonly => "readonly "

def Sign.print : Sign → String
  | .plain => ""
  | .plus => "+"
  | .minus => "-"

/-- A template: the chunks with `${…}` between them, in backticks. -/
def printTemplate : List String → List String → String
  | c :: cs, p :: ps => c ++ "$\x7b" ++ p ++ "\x7d" ++ printTemplate cs ps
  | cs, _ => String.join cs

def printImportType (depth : Nat) (arg : StrLit) (attrs : Option Attributes)
    (qualifier : Option EntityName) : String :=
  "import(" ++ arg.print ++
    (match attrs with
      | some attrs => ", " ++ bracedLines depth "," ["with: " ++ printAttributes (depth + 1) attrs]
      | none => "") ++
    ")" ++ (match qualifier with
      | some q => "." ++ q.print
      | none => "")

def angled (parts : List String) : String :=
  if parts.isEmpty then "" else "<" ++ commas parts ++ ">"

def when (b : Bool) (s : String) : String := if b then s else ""

/-- A hole at the end of a list of elements needs a comma of its own. -/
def lastComma (parts : List String) : String := when (parts.getLast? == some "") ","

def bracketed (parts : List String) : String := "[" ++ commas parts ++ lastComma parts ++ "]"

/-- A sign that would run into the operand's own sign is kept apart from it. -/
def unaryGap (op : String) (operand : String) : String :=
  if op == "typeof" || op == "void" || op == "delete" then " "
  else when ((op == "+" || op == "-") && operand.toList.head? == op.toList.head?) " "

mutual

def Expr.print (depth : Nat) : Expr → String
  | .ident n => n
  | .word t => t
  | .str l => l.print
  | .template cs ps => "\x60" ++ printTemplate cs (printExprs depth ps) ++ "\x60"
  | .hole => ""
  | .spread e => "..." ++ e.print depth
  | .keyed k v => k.print depth ++ ": " ++ v.print depth
  | .array es =>
    let lines := printExprs (depth + 1) es
    if es.isEmpty then "[]"
    else "[" ++ ",".intercalate (lines.map (newline (depth + 1) ++ ·)) ++ lastComma lines ++
      newline depth ++ "]"
  | .object ps =>
    if ps.isEmpty then "\x7b\x7d" else bracedLines depth "," (printExprs (depth + 1) ps)
  | .paren e => "(" ++ e.print depth ++ ")"
  | .member o q n => o.print depth ++ (if q then "?." else ".") ++ n
  | .index o q i => o.print depth ++ when q "?." ++ "[" ++ i.print depth ++ "]"
  | .call c q ts as =>
    c.print depth ++ when q "?." ++ angled (printTys depth ts) ++
      "(" ++ commas (printExprs depth as) ++ ")"
  | .construct c ts as =>
    "new " ++ c.print depth ++ angled (printTys depth ts) ++
      (match as with
        | some as => "(" ++ commas (printExprs depth as) ++ ")"
        | none => "")
  | .instantiate e ts => e.print depth ++ angled (printTys depth ts)
  | .unary op e => let s := e.print depth; op ++ unaryGap op s ++ s
  | .postfixed e op => e.print depth ++ op
  | .binary op l r => l.print depth ++ " " ++ op ++ " " ++ r.print depth
  | .cond c t f => c.print depth ++ " ? " ++ t.print depth ++ " : " ++ f.print depth
  | .seq es => commas (printExprs depth es)
  | .cast op e t =>
    match op, t with
    | "<", .word "const" => e.print depth ++ " as const"
    | "<", t => "<" ++ t.print depth ++ ">" ++ e.print depth
    | op, t => e.print depth ++ " " ++ op ++ " " ++ t.print depth

def printExprs (depth : Nat) : List Expr → List String
  | [] => []
  | e :: es => e.print depth :: printExprs depth es

def Key.print (depth : Nat) : Key → String
  | .word t => t
  | .str l => l.print
  | .number t => t
  | .hidden t => "#" ++ t
  | .computed e => "[" ++ e.print depth ++ "]"

def Ty.print (depth : Nat) : Ty → String
  | .word t => t
  | .str l => l.print
  | .template cs ps => "\x60" ++ printTemplate cs (printTys depth ps) ++ "\x60"
  | .ref n as => n.print ++ angled (printTys depth as)
  | .query n as => "typeof " ++ n.print ++ angled (printTys depth as)
  | .imported a at_ q as => printImportType depth a at_ q ++ angled (printTys depth as)
  | .importQuery a at_ q as os =>
    "typeof " ++ printImportType depth a at_ q ++ angled (printTys depth as) ++
      angled (printTys depth os)
  | .array t => t.print depth ++ "[]"
  | .tuple ts => "[" ++ commas (printTys (depth + 1) ts) ++ "]"
  | .labeled r l o t => when r "..." ++ l ++ when o "?" ++ ": " ++ t.print depth
  | .optional t => t.print depth ++ "?"
  | .rest t => "..." ++ t.print depth
  | .union ts => " | ".intercalate (printTys depth ts)
  | .inter ts => " & ".intercalate (printTys depth ts)
  | .conditional c b y n =>
    c.print depth ++ " extends " ++ b.print depth ++ " ? " ++ y.print depth ++ " : " ++
      n.print depth
  | .infer n b => "infer " ++ n ++ printOpt depth " extends " b
  | .paren t => "(" ++ t.print depth ++ ")"
  | .operator op t => op.print ++ t.print depth
  | .indexed o i => o.print depth ++ "[" ++ i.print depth ++ "]"
  | .mapped r k d a o v =>
    let mode := match r with
      | some s => s.print ++ "readonly "
      | none => ""
    let mark := match o with
      | some s => s.print ++ "?"
      | none => ""
    bracedLines depth ""
      [mode ++ "[" ++ k ++ " in " ++ d.print (depth + 1) ++ printOpt (depth + 1) " as " a ++ "]" ++
        mark ++ printOpt (depth + 1) ": " v ++ ";"]
  | .func s => s.print depth " => "
  | .ctor a s => when a "abstract " ++ "new" ++ s.printNew depth " => "
  | .record ms => bracedLines depth "" (printMembers (depth + 1) ms)
  | .predicate a s t => when a "asserts " ++ s ++ printOpt depth " is " t

def printTys (depth : Nat) : List Ty → List String
  | [] => []
  | t :: ts => t.print depth :: printTys depth ts

/-- A type behind `lead`, or nothing. -/
def printOpt (depth : Nat) (lead : String) : Option Ty → String
  | none => ""
  | some t => lead ++ t.print depth

def TypeParam.print (depth : Nat) : TypeParam → String
  | .mk mods n b d =>
    String.join (mods.map (· ++ " ")) ++ n ++ printOpt depth " extends " b ++
      printOpt depth " = " d

def printTypeParams (depth : Nat) : List TypeParam → List String
  | [] => []
  | p :: ps => p.print depth :: printTypeParams depth ps

def Pat.print (depth : Nat) : Pat → String
  | .ident i o a => i.name ++ when o "?" ++ printOpt depth ": " a
  | .hole => ""
  | .array es o a => bracketed (printPats depth es) ++ when o "?" ++ printOpt depth ": " a
  | .object fs o a =>
    (if fs.isEmpty then "\x7b\x7d" else "\x7b " ++ commas (printFields depth fs) ++ " \x7d") ++
      when o "?" ++ printOpt depth ": " a
  | .rest p a => "..." ++ p.print depth ++ printOpt depth ": " a
  | .assign l r => l.print depth ++ " = " ++ r.print depth

def printPats (depth : Nat) : List Pat → List String
  | [] => []
  | p :: ps => p.print depth :: printPats depth ps

def Field.print (depth : Nat) : Field → String
  | .keyed k p => k.print depth ++ ": " ++ p.print depth
  | .short i none => i.name
  | .short i (some e) => i.name ++ " = " ++ e.print depth
  | .rest p => "..." ++ p.print depth

def printFields (depth : Nat) : List Field → List String
  | [] => []
  | f :: fs => f.print depth :: printFields depth fs

/-- A signature whose result stands behind `arrow`. -/
def Signature.print (depth : Nat) (arrow : String) : Signature → String
  | .mk ts ps r =>
    angled (printTypeParams depth ts) ++ "(" ++ commas (printPats depth ps) ++ ")" ++
      printOpt depth arrow r

/-- A signature behind `new`: type parameters are kept apart from the word. -/
def Signature.printNew (depth : Nat) (arrow : String) : Signature → String
  | .mk ts ps r =>
    when (!ts.isEmpty) " " ++ angled (printTypeParams depth ts) ++
      "(" ++ commas (printPats depth ps) ++ ")" ++ printOpt depth arrow r

def Member.print (depth : Nat) : Member → String
  | .property r k o a => when r "readonly " ++ k.print depth ++ when o "?" ++ printOpt depth ": " a
  | .getter k a => "get " ++ k.print depth ++ "()" ++ printOpt depth ": " a
  | .setter k p => "set " ++ k.print depth ++ "(" ++ p.print depth ++ ")"
  | .method k o s => k.print depth ++ when o "?" ++ s.print depth ": "
  | .call s => s.print depth " : "
  | .construct s => "new" ++ s.printNew depth ": "
  | .index r p a =>
    when r "readonly " ++ "[" ++ p.print depth ++ "]" ++ printOpt depth ": " a

/-- The members, each with its `;`. -/
def printMembers (depth : Nat) : List Member → List String
  | [] => []
  | m :: ms => (m.print depth ++ ";") :: printMembers depth ms

end

def Access.print : Access → String
  | .priv => "private "
  | .prot => "protected "
  | .pub => "public "

def printAccess (a : Option Access) : String := (a.map Access.print).getD ""

def printInit (depth : Nat) (e : Option Expr) : String :=
  match e with
  | some e => " = " ++ e.print depth
  | none => ""

def CtorParam.print (depth : Nat) (p : CtorParam) : String :=
  printAccess p.access ++ when p.isOverride "override " ++ when p.isReadonly "readonly " ++
    p.pat.print depth

def MemberMods.print (m : MemberMods) : String :=
  when m.declare "declare " ++ printAccess m.access ++ when m.isStatic "static " ++
    when m.isAbstract "abstract " ++ when m.isOverride "override " ++ when m.isReadonly "readonly "

def ClassMember.print (depth : Nat) : ClassMember → String
  | .ctor mods _ ps =>
    printAccess mods.access ++ "constructor(" ++ commas (ps.map (CtorParam.print depth)) ++ ");"
  | .method mods fn kind key o sig =>
    mods.print ++ when fn.isAsync "async " ++
      (match kind with
        | .method => when fn.isGenerator "*"
        | .getter => "get "
        | .setter => "set ") ++
      key.print depth ++ when o "?" ++ sig.print depth ": " ++ ";"
  | .property mods isAccessor key mark ann value =>
    mods.print ++ when isAccessor "accessor " ++ key.print depth ++
      (match mark with
        | .plain => ""
        | .optional => "?"
        | .definite => "!") ++
      printOpt depth ": " ann ++ printInit depth value ++ ";"
  | .index mods p a =>
    when mods.isReadonly "readonly " ++ "[" ++ p.print depth ++ "]" ++ printOpt depth ": " a
  | .empty => ";"

def Heritage.print (depth : Nat) (h : Heritage) : String :=
  h.expr.print depth ++ angled (printTys depth h.args)

def printHeritage (depth : Nat) (word : String) (hs : List Heritage) : String :=
  if hs.isEmpty then "" else word ++ commas (hs.map (Heritage.print depth))

/-- A class behind the word `class`; a nameless one drops its type parameters. -/
def ClassBody.print (depth : Nat) (name : Option String) (c : ClassBody) : String :=
  (match name with
    | some n => " " ++ n ++ angled (printTypeParams depth c.tparams)
    | none => "") ++
    printHeritage depth " extends " c.base.toList ++
    printHeritage depth " implements " c.implements ++ " " ++
    bracedLines depth "" (c.members.map (ClassMember.print (depth + 1)))

def Func.print (depth : Nat) (name : Option String) (f : Func) : String :=
  when f.mods.isAsync "async " ++ "function" ++ when f.mods.isGenerator "*" ++
    (match name with
      | some n => " " ++ n
      | none => "") ++ f.sig.print depth ": " ++ ";"

def Interface.print (depth : Nat) (i : Interface) : String :=
  when i.declare "declare " ++ "interface " ++ i.id.name ++
    angled (printTypeParams depth i.tparams) ++ printHeritage depth " extends " i.bases ++ " " ++
    bracedLines depth "" (printMembers (depth + 1) i.members)

def VarKind.print : VarKind → String
  | .var_ => "var "
  | .let_ => "let "
  | .const_ => "const "

def Declarator.print (depth : Nat) (d : Declarator) : String :=
  d.pat.print depth ++ printInit depth d.init

def EnumMember.print (depth : Nat) (m : EnumMember) : String :=
  m.key.print depth ++ printInit depth m.init

def ModuleName.print : ModuleName → String
  | .ident i => "namespace " ++ i.name
  | .str l => "module " ++ l.print
  | .global => "global"

def ExportName.print : ExportName → String
  | .word t => t
  | .str l => l.print

def ImportSpecifier.print : ImportSpecifier → String
  | .named imported loc typeOnly =>
    when typeOnly "type " ++
      (match imported with
        | some n => n.print ++ " as "
        | none => "") ++ loc
  | .default loc => loc
  | .all loc => "* as " ++ loc

/-- The specifiers of an import as they are grouped: bare ones first, named ones in braces. -/
def printImportSpecifiers (specs : List ImportSpecifier) : String :=
  let bare := specs.filterMap fun s => match s with
    | .named _ _ _ => none
    | s => some s.print
  let named := specs.filterMap fun s => match s with
    | .named _ _ _ => some s.print
    | _ => none
  commas (bare ++ if named.isEmpty then [] else ["\x7b " ++ commas named ++ " \x7d"])

def printWith (depth : Nat) (attrs : Option Attributes) : String :=
  match attrs with
  | some attrs => " with " ++ printAttributes depth attrs
  | none => ""

def ImportDecl.print (depth : Nat) (d : ImportDecl) : String :=
  "import " ++ when d.typeOnly "type " ++
    (if d.specifiers.isEmpty then "" else printImportSpecifiers d.specifiers ++ " from ") ++
    d.src.print ++ printWith depth d.attrs ++ ";"

def ExportSpecifier.print : ExportSpecifier → String
  | .named orig exported typeOnly =>
    when typeOnly "type " ++ orig.print ++
      (match exported with
        | some n => " as " ++ n.print
        | none => "")
  | .all name => "* as " ++ name.print

def ExportList.print (depth : Nat) (d : ExportList) : String :=
  "export " ++ when d.typeOnly "type " ++
    (match d.specifiers with
      | [.all name] => (ExportSpecifier.all name).print
      | [] => "\x7b \x7d"
      | specs => "\x7b " ++ commas (specs.map ExportSpecifier.print) ++ " \x7d") ++
    (match d.src with
      | some src => " from " ++ src.print ++ printWith depth d.attrs
      | none => "") ++ ";"

def ExportAll.print (depth : Nat) (d : ExportAll) : String :=
  "export " ++ when d.typeOnly "type " ++ "* from " ++ d.src.print ++ printWith depth d.attrs ++ ";"

def ImportTarget.print : ImportTarget → String
  | .entity n => n.print
  | .require src => "require(" ++ src.print ++ ")"

def ImportEquals.print (d : ImportEquals) : String :=
  when d.isExport "export " ++ "import " ++ when d.typeOnly "type " ++ d.id.name ++ " = " ++
    d.target.print ++ ";"

def DefaultName.print : DefaultName → Option String
  | .named i => some i.name
  | .anonymous _ => none

def DefaultDecl.print (depth : Nat) : DefaultDecl → String
  | .cls name c => when c.isAbstract "abstract " ++ "class" ++ c.print depth name.print
  | .func name f => f.print depth name.print
  | .interface i => i.print depth

mutual

def Decl.print (depth : Nat) : Decl → String
  | .cls id declare c =>
    when declare "declare " ++ when c.isAbstract "abstract " ++ "class" ++
      c.print depth (some id.name)
  | .func id declare f => when declare "declare " ++ f.print depth (some id.name)
  | .var kind declare ds =>
    when declare "declare " ++ kind.print ++ commas (ds.map (Declarator.print depth)) ++ ";"
  | .resource isAwait ds =>
    when isAwait "await " ++ "using " ++ commas (ds.map (Declarator.print depth)) ++ ";"
  | .interface i => i.print depth
  | .typeAlias id declare ts ty =>
    when declare "declare " ++ "type " ++ id.name ++ angled (printTypeParams depth ts) ++ " = " ++
      ty.print depth ++ ";"
  | .enum id declare isConst ms =>
    when declare "declare " ++ when isConst "const " ++ "enum " ++ id.name ++ " " ++
      bracedLines depth "," (ms.map (EnumMember.print (depth + 1)))
  | .space declare name inner none =>
    when declare "declare " ++ ".".intercalate (name.print :: inner)
  | .space declare name inner (some items) =>
    when declare "declare " ++ ".".intercalate (name.print :: inner) ++ " " ++
      bracedLines depth "" (printItems (depth + 1) items)

def Item.print (depth : Nat) : Item → String
  | .empty => ";"
  | .expr e => e.print depth ++ ";"
  | .decl d => d.print depth
  | .importDecl d => d.print depth
  | .importEquals d => d.print
  | .exportDecl d => "export " ++ d.print depth
  | .exportDefaultDecl d => "export default " ++ d.print depth
  | .exportDefaultExpr e => "export default " ++ e.print depth ++ ";"
  | .exportList d => d.print depth
  | .exportAll d => d.print depth
  | .exportAssign e => "export = " ++ e.print depth
  | .exportAsNamespace n => "export = " ++ n

def printItems (depth : Nat) : List Item → List String
  | [] => []
  | i :: is => i.print depth :: printItems depth is

end

/-- The text of a module: one item a line, each line ended. -/
def Module.print (m : Module) : String :=
  (match m.shebang with
    | some s => "#!" ++ s ++ "\n"
    | none => "") ++
    String.join ((printItems 0 m.body).map (· ++ "\n"))

end AmbientBundle.Syntax
