/-! What an application brings along: its payload types with their values, the foreign objects it
unwinds with, and the handler arguments it defines itself. Everything here is data; what happens
when a value is destroyed or an argument of its own is produced belongs to the host. -/
namespace FaultRelay

structure Vocabulary where
  Kind : Type
  kindDecidable : DecidableEq Kind
  Value : Kind → Type
  name : Kind → String
  Object : Type
  ObjectType : Type
  objectTypeDecidable : DecidableEq ObjectType
  objectType : Object → ObjectType
  objectTypeName : ObjectType → String
  /-- Arguments defined by the application. They read no slot. -/
  Custom : Type
  customName : Custom → String
  /-- Whether the argument is produced after the ones that only read. -/
  customTakes : Custom → Bool
  customAlways : Custom → Bool
  Product : Type

attribute [instance] Vocabulary.kindDecidable Vocabulary.objectTypeDecidable

end FaultRelay
