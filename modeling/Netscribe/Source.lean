import Netscribe.Module

/-!
# Module sources

The Python source of a module is written in three sections: the header, which goes to the line of the
class, the constructor, and the forward method. Each follows its template. The marks of a repeated part
trim the blanks beside them, so an import brings the line feed behind it and a statement the one before
it, and without imports or statements no empty line is left over.
-/

namespace Netscribe.Module

/-- The repeated part of a template, written for each item. -/
def each {α : Type} (items : List α) (part : α → String) : String := String.join (items.map part)

def header (m : Module String) : String :=
  "# GENERATED BY NNDCT, DO NOT EDIT!\n\n"
    ++ each m.imports (fun line => line ++ "\n")
    ++ "class " ++ m.className ++ "(torch.nn.Module):\n"

def constructor (m : Module String) : String :=
  "    def __init__(self):\n"
    ++ "        super(" ++ m.className ++ ", self).__init__()"
    ++ each m.inits (fun s => "\n        " ++ s.line)
    ++ "\n"

def forward (m : Module String) : String :=
  "\n    def forward(self, *args):"
    ++ each m.forwards (fun s => "\n        " ++ s.line)
    ++ "\n        return " ++ m.returnList ++ "\n"

def sections (m : Module String) : List String := [m.header, m.constructor, m.forward]

def source (m : Module String) : String := String.join m.sections

end Netscribe.Module
