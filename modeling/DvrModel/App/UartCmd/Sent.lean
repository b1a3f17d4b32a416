import DvrModel.App.UartCmd.Status

-- What the command service sends. Frames are given to the callback whole.
namespace App.UartCmd

-- The bytes that `app_uart_cmd_build_ack` writes into a buffer of the given size.
def buildAck (type ret : UInt8) (bufSize : Nat) : List UInt8 :=
  if bufSize < 8 then
    []
  else
    let crc := crc16 [ret, 0]
    [frameHead, 8, type, ret, 0, crc.toUInt8, (crc >>> 8).toUInt8, frameTail]

-- The calls of `app_usart_cmd_send_ack` and `app_usart_cmd_send_mcu_version`, the latter with the values that
-- it finds.
inductive Sent
  | ack (type ret : UInt8)
  | mcuVersion (cache : ConfigStatus) (io : VehicleInputs) (anyKeyPressed : Bool)

namespace Sent

-- What is given to the callback, from the buffers of both functions.
def bytes : Sent → List UInt8
  | ack type ret                      => buildAck type ret 8
  | mcuVersion cache io anyKeyPressed => buildMcuVersion cache io anyKeyPressed mcuStatusFrameSize

end Sent

end App.UartCmd
