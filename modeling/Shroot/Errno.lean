namespace Shroot

/-- The error numbers the modelled functions return, without their sign. -/
inductive Errno where
  | EPERM | ENOENT | EINTR | EIO | ENXIO | E2BIG | EBADF | EAGAIN | ENOMEM | EACCES | EBUSY | EEXIST
  | EXDEV | ENODEV | ENOTDIR | EISDIR | EINVAL | ENFILE | ENOSPC | EROFS | EMLINK | ERANGE | ENAMETOOLONG
  | ELOOP | EPROTO | EOVERFLOW | EOPNOTSUPP | EAFNOSUPPORT | EADDRINUSE | EADDRNOTAVAIL | ENETUNREACH
  | ENOTEMPTY | ESTALE | ESRCH | EFAULT | EREMOTE | EMSGSIZE | ENETDOWN | EFBIG | EIDRM | ENOMSG
  | ECONNREFUSED | EHOSTUNREACH | ENOPROTOOPT | EPROTONOSUPPORT | ERESTART
  deriving DecidableEq

/-- The bytes of a text. -/
abbrev Bytes := List UInt8

def slash : UInt8 := 47

def dotDot : Bytes := [46, 46]

/-- A word of flags has one that a mask names. -/
def has (flags mask : UInt32) : Bool := flags &&& mask != 0

end Shroot
