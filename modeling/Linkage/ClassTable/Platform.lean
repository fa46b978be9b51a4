import Linkage.ClassTable.Basic

/-!
# Platform types

The types of the platform library that the language itself relies on: the root class, strings, numbers and the wrapper classes.
-/

namespace Linkage

namespace ClassTable

private def publicStatic : Access :=
  .accPublic ||| .accStatic

private def publicAbstract : Access :=
  .accPublic ||| .accAbstract

private def publicFinal : Access :=
  .accPublic ||| .accFinal

/-- The root class. -/
def objectClass : ClassDecl :=
  { ClassDecl.ofClass WellKnown.object with superclass := none }.addMethods
    [.constructor [],
     { name := "equals", params := [.ofType "obj" .object], result := .boolean },
     { name := "hashCode", params := [], result := .int },
     { name := "toString", params := [], result := .string }]

def charSequenceInterface : ClassDecl :=
  (ClassDecl.ofInterface WellKnown.charSequence).addMethods
    [{ name := "length", params := [], result := .int, access := publicAbstract }]

def comparableInterface : ClassDecl :=
  (ClassDecl.ofInterface WellKnown.comparable).addMethods
    [{ name := "compareTo", params := [.ofType "o" .object], result := .int, access := publicAbstract }]

def stringClass : ClassDecl :=
  { ClassDecl.ofClass WellKnown.string with
    access := publicFinal
    interfaces := [WellKnown.serializable, WellKnown.charSequence, WellKnown.comparable] }.addMethods
    [.constructor [],
     { name := "length", params := [], result := .int },
     { name := "isEmpty", params := [], result := .boolean },
     { name := "toUpperCase", params := [], result := .string },
     { name := "concat", params := [.ofType "str" .string], result := .string },
     { name := WellKnown.boxing, params := [.ofType "obj" .object], result := .string, access := publicStatic }]

def numberClass : ClassDecl :=
  { ClassDecl.ofClass WellKnown.number with
    access := publicAbstract
    interfaces := [WellKnown.serializable] }.addMethods
    [.constructor []]

/-- The superclass of a primitive's wrapper: numbers for those that are numbers. -/
def wrapperSuperclass : Primitive → String
  | .boolean => WellKnown.object
  | .char => WellKnown.object
  | _ => WellKnown.number

/-- The class that wraps a primitive, with its boxing and unboxing methods. -/
def wrapperClass (p : Primitive) : ClassDecl :=
  { ClassDecl.ofClass p.wrapper with
    access := publicFinal
    superclass := some (wrapperSuperclass p)
    interfaces := [WellKnown.comparable] }.addMethods
    [.constructor [.ofType "value" (.prim p)],
     { name := p.unboxing, params := [], result := .prim p },
     { name := WellKnown.boxing, params := [.ofType "value" (.prim p)], result := .ofClass p.wrapper, access := publicStatic }]

/-- The declarations of the platform types. -/
def platformTypes : List ClassDecl :=
  [objectClass, ClassDecl.ofInterface WellKnown.serializable, ClassDecl.ofInterface WellKnown.cloneable, charSequenceInterface,
    comparableInterface, stringClass, numberClass] ++ Primitive.all.map wrapperClass

/-- The table that holds the platform types only. -/
def platform : ClassTable :=
  empty.registerAll platformTypes

end ClassTable

end Linkage
